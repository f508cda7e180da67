import CueScript.Proofs.Collection.Equality
import CueScript.Proofs.Collection.Lookup
import CueScript.Proofs.Frame.Course

/-!
# Maps that keep their order

`assoc`, `dissoc` and `hash-map` make new maps with plain keys.  What is found in them is what
was given last for an equal key, or what the map had that they were made from.  Their keys
stand in the order in which they were first mentioned, in the spelling that they had then.
-/

namespace CueScript

open History (HasPlainKeys)

namespace History.HasPlainKeys

variable {entries : ValueEntries} {key probe value : Value}

/-! ## Putting and erasing plain keys -/

/-- Whether a plain key is there can be told by equality. -/
theorem any_equal_iff (has : HasPlainKeys entries) (plain : key.IsPlainKey) :
    (Entries.keys entries).any (·.equal key) = true ↔
      key.plainKey? ∈ (Entries.keys entries).map Value.plainKey? := by
  rw [List.any_eq_true, List.mem_map]
  constructor
  · rintro ⟨stored, member, isEqual⟩
    exact ⟨stored, member, (Value.equal_iff_of_plain (has.plain stored member) plain).mp isEqual⟩
  · rintro ⟨stored, member, sameKind⟩
    exact ⟨stored, member, (Value.equal_iff_of_plain (has.plain stored member) plain).mpr sameKind⟩

theorem find?_put
    (has : HasPlainKeys entries) (plain : key.IsPlainKey) (probePlain : probe.IsPlainKey) :
    Entries.find? Value.sameKey probe (Entries.put Value.sameKey key value entries) =
      if key.equal probe then some value else Entries.find? Value.sameKey probe entries := by
  have tells : Entries.Tells Value.sameKey Value.plainKey? probe (key :: Entries.keys entries) := by
    intro stored member
    rcases List.mem_cons.mp member with rfl | old
    · exact Value.sameKey_iff_of_plain plain probePlain
    · exact has.tells probePlain stored old
  rw [Entries.find?_put_of_tells (has.tells plain) tells]
  simp only [Value.equal_iff_of_plain plain probePlain]

theorem find?_erase
    (has : HasPlainKeys entries) (plain : key.IsPlainKey) (probePlain : probe.IsPlainKey) :
    Entries.find? Value.sameKey probe (Entries.erase Value.sameKey key entries) =
      if key.equal probe then none else Entries.find? Value.sameKey probe entries := by
  rw [Entries.find?_erase_of_tells (has.tells plain) (has.tells probePlain) has.distinct]
  simp only [Value.equal_iff_of_plain plain probePlain]

theorem keys_put (has : HasPlainKeys entries) (plain : key.IsPlainKey) :
    Entries.keys (Entries.put Value.sameKey key value entries) =
      if (Entries.keys entries).any (·.equal key) then Entries.keys entries
      else Entries.keys entries ++ [key] := by
  rw [Entries.keys_put_of_tells (has.tells plain)]
  by_cases known : (Entries.keys entries).any (·.equal key) = true
  · rw [if_pos known, if_pos ((has.any_equal_iff plain).mp known)]
  · rw [if_neg known, if_neg (mt (has.any_equal_iff plain).mpr known)]

theorem keys_erase (has : HasPlainKeys entries) (plain : key.IsPlainKey) :
    Entries.keys (Entries.erase Value.sameKey key entries) =
      (Entries.keys entries).filter fun stored => !key.equal stored := by
  rw [Entries.keys_erase_of_tells (has.tells plain) has.distinct]
  refine List.filter_congr fun stored member => ?_
  have same := Value.equal_iff_of_plain plain (has.plain stored member)
  by_cases isEqual : key.equal stored = true
  · simp [isEqual, same.mp isEqual]
  · have different : ¬ stored.plainKey? = key.plainKey? := fun sameKind =>
      isEqual (same.mpr sameKind.symm)
    simp [isEqual, different]

end History.HasPlainKeys

namespace Collection

/-! ## Many keys -/

/-- The value of the last of some pairs whose key is equal to a key. -/
def lastGiven? (key : Value) (pairs : List (Value × Value)) : Option Value :=
  (pairs.reverse.find? fun pair => pair.1.equal key).map Prod.snd

/-- The keys that are not equal to one before them. -/
def firstMentions : List Value → List Value
  | [] => []
  | key :: rest => key :: (firstMentions rest).filter fun later => !key.equal later

variable {entries : ValueEntries} {key probe : Value} {pairs : List (Value × Value)}
  {removed : List Value}

theorem lastGiven?_cons (pair : Value × Value) (rest : List (Value × Value)) :
    lastGiven? key (pair :: rest) =
      (lastGiven? key rest).or (if pair.1.equal key then some pair.2 else none) := by
  rw [lastGiven?, List.reverse_cons, List.find?_append, Option.map_or, ← lastGiven?]
  by_cases isEqual : pair.1.equal key = true
  · simp [isEqual]
  · simp [isEqual]

theorem mem_of_mem_firstMentions {keys : List Value} (member : key ∈ firstMentions keys) :
    key ∈ keys := by
  induction keys with
  | nil => exact member
  | cons first rest inductionHypothesis =>
      rcases List.mem_cons.mp member with rfl | later
      · exact List.mem_cons_self
      · exact List.mem_cons_of_mem _ (inductionHypothesis (List.mem_filter.mp later).1)

theorem putAll_of_plain (pairsPlain : ∀ pair ∈ pairs, pair.1.IsPlainKey) :
    ValueEntries.putAll entries pairs = .ok (Entries.putAll Value.sameKey pairs entries) := by
  induction pairs generalizing entries with
  | nil => rfl
  | cons pair rest inductionHypothesis =>
      obtain ⟨first, value⟩ := pair
      have isKey := Value.isKey_of_isPlainKey (pairsPlain _ List.mem_cons_self)
      rw [ValueEntries.putAll, ValueEntries.put, ValueEntries.withKey, if_pos isKey]
      exact inductionHypothesis fun pair member => pairsPlain pair (List.mem_cons_of_mem _ member)

theorem hasPlainKeys_putAll
    (has : HasPlainKeys entries) (pairsPlain : ∀ pair ∈ pairs, pair.1.IsPlainKey) :
    HasPlainKeys (Entries.putAll Value.sameKey pairs entries) := by
  induction pairs generalizing entries with
  | nil => exact has
  | cons pair rest inductionHypothesis =>
      exact inductionHypothesis (has.put (pairsPlain pair List.mem_cons_self))
        fun pair member => pairsPlain pair (List.mem_cons_of_mem _ member)

/-- What is found after pairs were put is what was given last. -/
theorem find?_putAll
    (has : HasPlainKeys entries) (pairsPlain : ∀ pair ∈ pairs, pair.1.IsPlainKey)
    (plain : key.IsPlainKey) :
    Entries.find? Value.sameKey key (Entries.putAll Value.sameKey pairs entries) =
      (lastGiven? key pairs).or (Entries.find? Value.sameKey key entries) := by
  induction pairs generalizing entries with
  | nil => rfl
  | cons pair rest inductionHypothesis =>
      have pairPlain := pairsPlain pair List.mem_cons_self
      have found := inductionHypothesis (@HasPlainKeys.put entries _ pair.2 has pairPlain)
        fun pair member => pairsPlain pair (List.mem_cons_of_mem _ member)
      rw [Entries.putAll, List.foldl_cons, ← Entries.putAll, found, has.find?_put pairPlain plain,
        lastGiven?_cons, Option.or_assoc]
      by_cases isEqual : pair.1.equal key = true
      · simp [isEqual]
      · simp [isEqual]

/-- The keys that are there keep their places and spellings, and new ones follow in the order
in which they are first mentioned. -/
theorem keys_putAll
    (has : HasPlainKeys entries) (pairsPlain : ∀ pair ∈ pairs, pair.1.IsPlainKey) :
    Entries.keys (Entries.putAll Value.sameKey pairs entries) =
      Entries.keys entries ++ (firstMentions (pairs.map Prod.fst)).filter fun key =>
        !(Entries.keys entries).any (·.equal key) := by
  induction pairs generalizing entries with
  | nil => exact (List.append_nil _).symm
  | cons pair rest inductionHypothesis =>
      have pairPlain := pairsPlain pair List.mem_cons_self
      have restPlain : ∀ pair ∈ rest, pair.1.IsPlainKey := fun pair member =>
        pairsPlain pair (List.mem_cons_of_mem _ member)
      have later := inductionHypothesis (@HasPlainKeys.put entries _ pair.2 has pairPlain) restPlain
      rw [Entries.putAll, List.foldl_cons, ← Entries.putAll, later, has.keys_put pairPlain,
        List.map_cons, firstMentions, List.filter_cons, List.filter_filter]
      -- Later mentions of the first key are left out: its kind is known from the first one on.
      by_cases known : (Entries.keys entries).any (·.equal pair.1) = true
      · simp only [known, if_true, Bool.not_true, Bool.false_eq_true, if_false]
        congr 1
        refine List.filter_congr fun key mentioned => ?_
        obtain ⟨mention, isMention, rfl⟩ := List.mem_map.mp (mem_of_mem_firstMentions mentioned)
        have plain := restPlain mention isMention
        by_cases isEqual : pair.1.equal mention.1 = true
        · have sameKind := (Value.equal_iff_of_plain pairPlain plain).mp isEqual
          have knownToo := (has.any_equal_iff plain).mpr
            (sameKind ▸ (has.any_equal_iff pairPlain).mp known)
          rw [knownToo]
          rfl
        · simp [isEqual]
      · simp only [known, if_false, Bool.not_false, Bool.false_eq_true, if_true]
        rw [List.append_assoc, List.singleton_append]
        congr 2
        refine List.filter_congr fun key _ => ?_
        simp [List.any_append]

/-- What is left when keys were erased is what had no key equal to one of them. -/
theorem eraseAll_of_plain
    (has : HasPlainKeys entries) (removedPlain : ∀ key ∈ removed, key.IsPlainKey) :
    ∃ left, ValueEntries.eraseAll entries removed = .ok left ∧ HasPlainKeys left ∧
      Entries.keys left =
        (Entries.keys entries).filter (fun stored => !removed.any (·.equal stored)) ∧
      ∀ key : Value, key.IsPlainKey →
        Entries.find? Value.sameKey key left =
          if removed.any (·.equal key) then none
          else Entries.find? Value.sameKey key entries := by
  induction removed generalizing entries with
  | nil => exact ⟨entries, rfl, has, by simp, fun key _ => by simp⟩
  | cons first rest inductionHypothesis =>
      have firstPlain := removedPlain first List.mem_cons_self
      obtain ⟨left, erased, hasLeft, keysLeft, found⟩ := inductionHypothesis
        (has.erase firstPlain) fun key member => removedPlain key (List.mem_cons_of_mem _ member)
      refine ⟨left, ?_, hasLeft, ?_, fun key plain => ?_⟩
      · have isErased : ValueEntries.erase entries first =
            .ok (Entries.erase Value.sameKey first entries) := by
          rw [ValueEntries.erase, ValueEntries.withKey,
            if_pos (Value.isKey_of_isPlainKey firstPlain)]
          cases entries <;> rfl
        rw [ValueEntries.eraseAll, isErased]
        exact erased
      · rw [keysLeft, has.keys_erase firstPlain, List.filter_filter]
        refine List.filter_congr fun stored _ => ?_
        rw [List.any_cons, Bool.not_or, Bool.and_comm]
      · rw [found key plain, has.find?_erase firstPlain plain, List.any_cons]
        cases first.equal key <;> simp

/-! ## Arguments in pairs -/

/-- Pairs as arguments, one after the other. -/
def unpaired (pairs : List (Value × Value)) : List Value :=
  pairs.flatMap fun pair => [pair.1, pair.2]

theorem pairs?_unpaired (pairs : List (Value × Value)) : pairs? (unpaired pairs) = some pairs := by
  induction pairs with
  | nil => rfl
  | cons pair rest inductionHypothesis =>
      change (pairs? (unpaired rest)).map ((pair.1, pair.2) :: ·) = _
      rw [inductionHypothesis]
      rfl

/-- An odd number of arguments does not pair up. -/
theorem pairs?_of_odd (args : List Value) (odd : args.length % 2 = 1) : pairs? args = none := by
  induction args using pairs?.induct with
  | case1 => cases odd
  | case2 => rfl
  | case3 key value rest inductionHypothesis =>
      have oddRest : rest.length % 2 = 1 := by
        simp only [List.length_cons] at odd
        omega
      rw [pairs?, inductionHypothesis oddRest]
      rfl

theorem isPlainKey_revised
    (revise : Value → Value) (pairsPlain : ∀ pair ∈ pairs, pair.1.IsPlainKey) :
    ∀ pair ∈ pairs.map (Prod.map id revise), pair.1.IsPlainKey := by
  intro pair member
  obtain ⟨original, isOriginal, rfl⟩ := List.mem_map.mp member
  exact pairsPlain original isOriginal

theorem lastGiven?_map (revise : Value → Value) :
    lastGiven? key (pairs.map (Prod.map id revise)) = (lastGiven? key pairs).map revise := by
  rw [lastGiven?, lastGiven?, ← List.map_reverse, List.find?_map, Option.map_map, Option.map_map]
  rfl

end Collection

namespace Heap

variable {heap : Heap} {entries : ValueEntries} {birth : Nat}

/-- Whether the numbers that have not been given out belong to no view and to no list that has
lost items. -/
structure HasUnusedNumbers (heap : Heap) : Prop where
  views : ∀ number, heap.births ≤ number → heap.viewed? number = none
  losses : ∀ number, heap.births ≤ number → heap.left? number = none

/-- A heap that knows of everything that is in it has nothing under other numbers. -/
theorem Settled.hasUnusedNumbers (settled : heap.Settled) : heap.HasUnusedNumbers where
  views number isNew := by
    cases isView : heap.viewed? number with
    | none => rfl
    | some table =>
        exact absurd (settled.views _ (mem_views isView)).1 (Nat.not_lt.mpr isNew)
  losses _ isNew := settled.unlost isNew

/-- The heap after one number was given out. -/
def afterNumber (heap : Heap) : Heap := { heap with births := heap.births + 1 }

theorem holdings_afterNumber (budget : Nat) (path : List Nat) :
    heap.afterNumber.holdings budget path = heap.holdings budget path := by
  induction budget generalizing path with
  | zero => rfl
  | succ budget inductionHypothesis =>
      simp only [holdings, inductionHypothesis]
      rfl

/-- Giving out a number changes nothing that a value holds. -/
@[simp]
theorem current_afterNumber (value : Value) :
    heap.afterNumber.current value = heap.current value := by
  unfold current present
  rw [holdings_afterNumber]
  rfl

theorem HasUnusedNumbers.afterNumber (unused : heap.HasUnusedNumbers) :
    heap.afterNumber.HasUnusedNumbers where
  views number isNew := unused.views number (Nat.le_of_succ_le isNew)
  losses number isNew := unused.losses number (Nat.le_of_succ_le isNew)

theorem map_current_of_plain {keys : List Value} (plain : ∀ key ∈ keys, key.IsPlainKey) :
    keys.map heap.current = keys :=
  (List.map_congr_left fun key member => current_of_isPlainKey (plain key member)).trans
    (List.map_id _)

/-- A map that is no view has the values that it was made with, as they are now. -/
theorem current_map
    (has : HasPlainKeys entries) (noView : heap.viewed? birth = none) :
    heap.current (.map entries birth) = .map (Entries.mapValues heap.current entries) birth := by
  have held : heap.present.entries birth = none := by
    rw [← Option.not_isSome_iff_eq_none, isSome_entries_present, noView]
    exact Bool.false_ne_true
  unfold current
  split
  · exact congrArg (Value.map · birth) (List.map_id _).symm
  · have sameEntries : Value.currentEntries heap.present entries =
        Entries.mapValues (Value.current heap.present) entries := by
      rw [Value.currentEntries_eq]
      apply List.map_congr_left
      intro entry member
      rw [Value.current_of_isPlainKey (has.plain entry.1 (List.mem_map_of_mem member))]
      rfl
    rw [Value.current, held, sameEntries]

end Heap

namespace Collection

open Access (perform_callerOf_builtin held?)
open Eval (callerOf)

variable {frames : Nat} {heap : Heap} {holder key : Value} {entries : ValueEntries} {birth : Nat}

/-! ## What a map shows -/

/-- The entries of a map; `nil` counts as a map without entries. -/
def mapEntries? : Value → Option ValueEntries
  | .nil => some []
  | .map entries _ => some entries
  | _ => none

theorem held?_of_mapEntries
    (isMap : mapEntries? (heap.current holder) = some entries) (plain : key.IsPlainKey) :
    held? heap holder key = .ok (Entries.find? Value.sameKey key entries) := by
  rw [held?]
  cases now : heap.current holder with
  | nil =>
      rw [now] at isMap
      cases isMap
      rfl
  | map held birth =>
      rw [now] at isMap
      cases isMap
      simp only [ValueEntries.get?, ValueEntries.withKey, Value.isKey_of_isPlainKey plain, if_true]
      rfl
  | _ =>
      rw [now] at isMap
      cases isMap

/-- `get` finds what is in the entries. -/
theorem perform_get_map
    (isMap : mapEntries? (heap.current holder) = some entries) (plain : key.IsPlainKey)
    (default : Value) :
    (callerOf (frames + 1) (.builtin .get) [holder, key, default]).perform heap =
      (.ok ((Entries.find? Value.sameKey key entries).getD (heap.current default)), heap) := by
  have isCollection : (heap.current holder).isCollection = true := by
    cases now : heap.current holder with
    | nil | map => rfl
    | _ =>
        rw [now] at isMap
        cases isMap
  exact Access.perform_callerOf_get_default (held?_of_mapEntries isMap plain) isCollection plain

/-- Whether a map shows some keys: no two of them are equal, `count` is their number, `keys`
lists them, and `vals` lists what `get` finds under each of them; of a map without keys, both
are `nil`. -/
structure ShowsKeys (frames : Nat) (heap : Heap) (map : Value) (keys : List Value) : Prop where
  unequal : keys.Pairwise fun first second => first.equal second = false
  count : (callerOf (frames + 2) (.builtin .count) [map]).perform heap =
    (.ok (.int keys.length), heap)
  empty : keys = [] →
    (callerOf (frames + 2) (.builtin .keys) [map]).perform heap = (.ok .nil, heap) ∧
      (callerOf (frames + 2) (.builtin .vals) [map]).perform heap = (.ok .nil, heap)
  aligned : keys ≠ [] → ∃ values number, values.length = keys.length ∧
    ((callerOf (frames + 2) (.builtin .keys) [map]).perform heap).1 = .ok (.list keys number) ∧
    ((callerOf (frames + 2) (.builtin .vals) [map]).perform heap).1 = .ok (.list values number) ∧
    ∀ pair ∈ keys.zip values, ∀ default,
      (callerOf (frames + 2) (.builtin .get) [map, pair.1, default]).perform heap =
        (.ok pair.2, heap)

/-- The list that a member of a map gives is listed once more. -/
theorem perform_listed
    {operation : String} {items : List Value} (unused : heap.HasUnusedNumbers)
    (now : heap.current (.map entries birth) = .map entries birth) (isSome : entries ≠ [])
    (isOperation : operation ∈ Access.mapOperations)
    (calls : Member.callOnMap entries operation [] = Action.newList items)
    (current : items.map heap.current = items) :
    (listed (callerOf (frames + 1)) operation (.map entries birth)).perform heap =
      (.ok (.list items (heap.births + 1)), heap.afterNumber.afterNumber) := by
  have present : (Access.isPresent (.map entries birth)).perform heap = (.ok true, heap) := by
    obtain ⟨entry, rest, rfl⟩ := List.exists_cons_of_ne_nil isSome
    rfl
  have isMember : (Access.member (.map entries birth) operation).perform heap =
      (.ok (.member (.map entries birth) operation), heap) := by
    rw [Access.member, Access.member?, if_pos isOperation]
    rfl
  have noArgs : heap.currentItems [] = [] := (Heap.map_current_eq []).symm
  have called : (callerOf (frames + 1) (.member (.map entries birth) operation) []).perform heap =
      (.ok (.list items heap.births), heap.afterNumber) := by
    change (Member.call (callerOf frames) (heap.current (.map entries birth)) operation
      (heap.currentItems [])).perform heap = _
    rw [now, noArgs]
    change (Member.callOnMap entries operation []).perform heap = _
    rw [calls]
    rfl
  have unlost : heap.afterNumber.left? heap.births = none := unused.losses _ (Nat.le_refl _)
  have again : (Action.current (.list items heap.births)).perform heap.afterNumber =
      (.ok (.list items heap.births), heap.afterNumber) := by
    change (Except.ok (heap.afterNumber.current (.list items heap.births)), heap.afterNumber) = _
    have same : heap.afterNumber.current = heap.current := funext Heap.current_afterNumber
    rw [Heap.current_list unlost, same, current]
  rw [listed, Action.perform_bind_ok present, if_pos rfl, Access.callMember, bind_assoc,
    Action.perform_bind_ok isMember, Action.perform_bind_ok called, Action.perform_bind_ok again]
  rfl

/-- A map with plain keys that is no view shows its keys. -/
theorem showsKeys_map
    (unused : heap.HasUnusedNumbers) (has : HasPlainKeys entries)
    (noView : heap.viewed? birth = none) :
    ShowsKeys frames heap (.map entries birth) (Entries.keys entries) := by
  have now := Heap.current_map has noView
  have again := @Heap.current_current heap (.map entries birth)
  have isMap : mapEntries? (heap.current (.map entries birth)) =
      some (Entries.mapValues heap.current entries) := by
    rw [now]
    rfl
  rw [now] at again
  have keysShown : Entries.keys (Entries.mapValues heap.current entries) = Entries.keys entries :=
    Entries.keys_mapValues heap.current entries
  have keysCurrent := @Heap.map_current_of_plain heap _ has.plain
  have valuesCurrent : (Entries.values (Entries.mapValues heap.current entries)).map heap.current =
      Entries.values (Entries.mapValues heap.current entries) := by
    rw [Entries.values, Entries.mapValues, List.map_map, List.map_map, List.map_map]
    exact List.map_congr_left fun entry _ => Heap.current_current (Prod.snd entry)
  constructor
  · exact has.pairwise_unequal
  · rw [perform_callerOf_builtin, List.map_cons, List.map_nil, now, ← keysShown]
    rfl
  · intro isEmpty
    obtain rfl : entries = [] := List.map_eq_nil_iff.mp isEmpty
    rw [perform_callerOf_builtin, perform_callerOf_builtin, List.map_cons, List.map_nil, now]
    exact ⟨rfl, rfl⟩
  · intro isSome
    have shownSome : Entries.mapValues heap.current entries ≠ [] := fun isEmpty =>
      isSome (by rw [← keysShown, isEmpty]; rfl)
    refine ⟨Entries.values (Entries.mapValues heap.current entries), heap.births + 1, ?_, ?_, ?_,
      fun pair member default => ?_⟩
    · rw [← keysShown, Entries.keys, Entries.values, List.length_map, List.length_map]
    · rw [perform_callerOf_builtin, List.map_cons, List.map_nil, now]
      have listed := @perform_listed frames heap _ birth "keys" (Entries.keys entries) unused again
        shownSome (by decide) (by rw [← keysShown]; rfl) keysCurrent
      exact congrArg Prod.fst listed
    · rw [perform_callerOf_builtin, List.map_cons, List.map_nil, now]
      have listed := @perform_listed frames heap _ birth "values" _ unused again
        shownSome (by decide) rfl valuesCurrent
      exact congrArg Prod.fst listed
    · rw [← keysShown, Entries.keys, Entries.values, List.zip_map'] at member
      obtain ⟨entry, isEntry, rfl⟩ := List.mem_map.mp member
      have hasShown : HasPlainKeys (Entries.mapValues heap.current entries) := by
        constructor <;> rw [keysShown]
        · exact has.plain
        · exact has.distinct
      have plain := hasShown.plain entry.1 (List.mem_map_of_mem isEntry)
      have found := Entries.find?_of_mem_of_tells (hasShown.tells plain) hasShown.distinct isEntry
        rfl
      rw [perform_get_map isMap plain, found]
      rfl

/-- What a map that has just been made shows: its keys, and under each of them what it was
made with, as it is now. -/
theorem shows_made
    (unused : heap.HasUnusedNumbers) (has : HasPlainKeys entries) :
    ShowsKeys frames heap.afterNumber (.map entries heap.births) (Entries.keys entries) ∧
      ∀ key default : Value, key.IsPlainKey →
        (callerOf (frames + 2) (.builtin .get)
          [.map entries heap.births, key, default]).perform heap.afterNumber =
          (.ok (heap.current ((Entries.find? Value.sameKey key entries).getD default)),
            heap.afterNumber) := by
  have noView : heap.afterNumber.viewed? heap.births = none := unused.views _ (Nat.le_refl _)
  have same : heap.afterNumber.current = heap.current := funext Heap.current_afterNumber
  refine ⟨showsKeys_map unused.afterNumber has noView, fun key default plain => ?_⟩
  have isMap : mapEntries? (heap.afterNumber.current (.map entries heap.births)) =
      some (Entries.mapValues heap.current entries) := by
    rw [Heap.current_map has noView, same]
    rfl
  rw [perform_get_map isMap plain, Entries.find?_mapValues, same]
  cases Entries.find? Value.sameKey key entries <;> rfl

/-! ## Making maps -/

variable {pairs : List (Value × Value)} {removed : List Value}

theorem perform_entriesOf
    {call : Caller} {given : Value} (isMap : mapEntries? given = some entries) :
    (entriesOf call given).perform heap = (.ok entries, heap) := by
  cases given with
  | nil | map =>
      cases isMap
      rfl
  | _ => cases isMap

theorem map_current_unpaired (pairsPlain : ∀ pair ∈ pairs, pair.1.IsPlainKey) :
    (unpaired pairs).map heap.current = unpaired (pairs.map (Prod.map id heap.current)) := by
  rw [unpaired, unpaired, List.map_flatMap, List.flatMap_map]
  apply List.flatMap_congr
  intro pair member
  simp [Heap.current_of_isPlainKey (pairsPlain pair member)]

theorem perform_assoc
    (isMap : mapEntries? (heap.current holder) = some entries)
    (pairsPlain : ∀ pair ∈ pairs, pair.1.IsPlainKey) :
    (callerOf (frames + 1) (.builtin .assoc) (holder :: unpaired pairs)).perform heap =
      (.ok (.map (Entries.putAll Value.sameKey (pairs.map (Prod.map id heap.current)) entries)
        heap.births), heap.afterNumber) := by
  have revisedPlain := isPlainKey_revised heap.current pairsPlain
  rw [perform_callerOf_builtin, List.map_cons, map_current_unpaired pairsPlain]
  change (assoc (callerOf frames) (heap.current holder)
    (unpaired (pairs.map (Prod.map id heap.current)))).perform heap = _
  simp only [assoc, pairs?_unpaired]
  rw [Action.perform_bind_ok (perform_entriesOf isMap), putAll_of_plain revisedPlain]
  rfl

theorem perform_dissoc
    {left : ValueEntries} (isMap : mapEntries? (heap.current holder) = some entries)
    (removedPlain : ∀ key ∈ removed, key.IsPlainKey)
    (erased : ValueEntries.eraseAll entries removed = .ok left) :
    (callerOf (frames + 1) (.builtin .dissoc) (holder :: removed)).perform heap =
      (.ok (.map left heap.births), heap.afterNumber) := by
  rw [perform_callerOf_builtin, List.map_cons, Heap.map_current_of_plain removedPlain]
  change (dissoc (callerOf frames) (heap.current holder) removed).perform heap = _
  rw [dissoc, Action.perform_bind_ok (perform_entriesOf isMap), erased]
  rfl

theorem perform_hashMap (pairsPlain : ∀ pair ∈ pairs, pair.1.IsPlainKey) :
    (callerOf (frames + 1) (.builtin .hashMap) (unpaired pairs)).perform heap =
      (.ok (.map (Entries.putAll Value.sameKey (pairs.map (Prod.map id heap.current)) [])
        heap.births), heap.afterNumber) := by
  have revisedPlain := isPlainKey_revised heap.current pairsPlain
  rw [perform_callerOf_builtin, map_current_unpaired pairsPlain]
  change (hashMap (unpaired (pairs.map (Prod.map id heap.current)))).perform heap = _
  simp only [hashMap, pairs?_unpaired]
  rw [putAll_of_plain revisedPlain]
  rfl

theorem perform_assoc_odd {args : List Value} (value : Value) (odd : args.length % 2 = 1) :
    (callerOf (frames + 1) (.builtin .assoc) (value :: args)).perform heap =
      (.error (.failed .unpairedAssoc), heap) := by
  have unmatched : pairs? (args.map heap.current) = none :=
    pairs?_of_odd _ (by rwa [List.length_map])
  rw [perform_callerOf_builtin]
  change (assoc (callerOf frames) (heap.current value) (args.map heap.current)).perform heap = _
  rw [assoc, unmatched]
  rfl

theorem perform_hashMap_odd {args : List Value} (odd : args.length % 2 = 1) :
    (callerOf (frames + 1) (.builtin .hashMap) args).perform heap =
      (.error (.failed .oddMapArguments), heap) := by
  have unmatched : pairs? (args.map heap.current) = none :=
    pairs?_of_odd _ (by rwa [List.length_map])
  rw [perform_callerOf_builtin]
  change (hashMap (args.map heap.current)).perform heap = _
  rw [hashMap, unmatched]
  rfl

/-- `assoc` and `dissoc` make a new map from a map with plain keys, or from `nil`, and
`hash-map` does what `assoc` does on `nil`.

* In the map that `assoc` makes, `get` finds the value that was given last for an equal key, or
  else what it finds in the map that it was made from.
* In the map that `dissoc` makes, it finds the default in the place of what was removed.
* The keys are those of the map that it was made from, in their order and spelling, without
  those that were removed, and then the new ones, in the order in which they were first
  mentioned.
* All that happens to the heap is that a number is given out: no map that was there before
  changes.
* An odd number of arguments does not pair up. -/
theorem maps_keep_order
    (unused : heap.HasUnusedNumbers) (isMap : mapEntries? (heap.current holder) = some entries)
    (has : HasPlainKeys entries) (pairsPlain : ∀ pair ∈ pairs, pair.1.IsPlainKey)
    (removedPlain : ∀ key ∈ removed, key.IsPlainKey) :
    (∃ made,
      (callerOf (frames + 2) (.builtin .assoc) (holder :: unpaired pairs)).perform heap =
        (.ok made, heap.afterNumber) ∧
      ShowsKeys frames heap.afterNumber made (Entries.keys entries ++
        (firstMentions (pairs.map Prod.fst)).filter fun key =>
          !(Entries.keys entries).any (·.equal key)) ∧
      ∀ key default : Value, key.IsPlainKey → ∃ given,
        (callerOf (frames + 2) (.builtin .get) [holder, key, default]).perform heap =
          (.ok given, heap) ∧
        (callerOf (frames + 2) (.builtin .get) [made, key, default]).perform heap.afterNumber =
          (.ok (heap.current ((lastGiven? key pairs).getD given)), heap.afterNumber)) ∧
    (∃ made,
      (callerOf (frames + 2) (.builtin .dissoc) (holder :: removed)).perform heap =
        (.ok made, heap.afterNumber) ∧
      ShowsKeys frames heap.afterNumber made
        ((Entries.keys entries).filter fun key => !removed.any (·.equal key)) ∧
      ∀ key default : Value, key.IsPlainKey → ∃ given,
        (callerOf (frames + 2) (.builtin .get) [holder, key, default]).perform heap =
          (.ok given, heap) ∧
        (callerOf (frames + 2) (.builtin .get) [made, key, default]).perform heap.afterNumber =
          (.ok (heap.current (if removed.any (·.equal key) then default else given)),
            heap.afterNumber)) ∧
    (callerOf (frames + 2) (.builtin .hashMap) (unpaired pairs)).perform heap =
      (callerOf (frames + 2) (.builtin .assoc) (.nil :: unpaired pairs)).perform heap ∧
    (∀ value, heap.afterNumber.current value = heap.current value) ∧
    ∀ (value : Value) (args : List Value), args.length % 2 = 1 →
      (callerOf (frames + 2) (.builtin .assoc) (value :: args)).perform heap =
        (.error (.failed .unpairedAssoc), heap) ∧
      (callerOf (frames + 2) (.builtin .hashMap) args).perform heap =
        (.error (.failed .oddMapArguments), heap) ∧
      Failure.unpairedAssoc.kindName = "ValueError" ∧
      Failure.oddMapArguments.kindName = "ValueError" := by
  have found (key default : Value) (plain : key.IsPlainKey) :=
    @perform_get_map (frames + 1) heap holder key entries isMap plain default
  refine ⟨?_, ?_, ?_, Heap.current_afterNumber, ?_⟩
  · have revisedPlain := isPlainKey_revised heap.current pairsPlain
    have keysMade := keys_putAll has revisedPlain
    obtain ⟨shows, gives⟩ :=
      @shows_made frames heap _ unused (hasPlainKeys_putAll has revisedPlain)
    refine ⟨_, perform_assoc isMap pairsPlain, ?_, fun key default plain =>
      ⟨_, found key default plain, ?_⟩⟩
    · have sameKeys : (pairs.map (Prod.map id heap.current)).map Prod.fst = pairs.map Prod.fst := by
        rw [List.map_map]
        rfl
      rwa [keysMade, sameKeys] at shows
    · rw [gives key default plain, find?_putAll has revisedPlain plain, lastGiven?_map]
      cases lastGiven? key pairs with
      | some value => simp [Heap.current_current]
      | none => cases Entries.find? Value.sameKey key entries <;> simp [Heap.current_current]
  · obtain ⟨left, erased, hasLeft, keysLeft, foundLeft⟩ := eraseAll_of_plain has removedPlain
    obtain ⟨shows, gives⟩ := @shows_made frames heap _ unused hasLeft
    refine ⟨_, perform_dissoc isMap removedPlain erased, keysLeft ▸ shows, fun key default plain =>
      ⟨_, found key default plain, ?_⟩⟩
    rw [gives key default plain, foundLeft key plain]
    by_cases isRemoved : removed.any (·.equal key) = true
    · simp [isRemoved]
    · rw [if_neg isRemoved, if_neg isRemoved]
      cases Entries.find? Value.sameKey key entries <;> simp [Heap.current_current]
  · have isNil : mapEntries? (heap.current .nil) = some [] := by
      have plain : Value.nil.IsPlainKey := rfl
      rw [Heap.current_of_isPlainKey plain]
      rfl
    rw [perform_hashMap pairsPlain, perform_assoc isNil pairsPlain]
  · intro value args odd
    exact ⟨perform_assoc_odd value odd, perform_hashMap_odd odd, rfl, rfl⟩

/-- A map from `:a` and 1. -/
def small : Value := .map [(.keyword "a", .int 1), (.int 1, .str "one")] 2

/-- Two new values for one new key, and one for a key of the map. -/
def given : List (Value × Value) :=
  [(.str "b", .int 5), (.str "a", .int 7), (.keyword "b", .int 6)]

/-- A heap in which the number of the map is given out. -/
def smallHeap : Heap := { Heap.empty with births := 3 }

theorem maps_keep_order_small :
    smallHeap.HasUnusedNumbers ∧
      mapEntries? (smallHeap.current small) =
        some [(.keyword "a", .int 1), (.int 1, .str "one")] ∧
      HasPlainKeys [(.keyword "a", .int 1), (.int 1, .str "one")] ∧
      (∀ pair ∈ given, pair.1.IsPlainKey) ∧ (∀ key ∈ [Value.bool true], key.IsPlainKey) ∧
      (∃ made,
        (callerOf 2 (.builtin .assoc) (small :: unpaired given)).perform smallHeap =
          (.ok made, smallHeap.afterNumber) ∧
        ShowsKeys 0 smallHeap.afterNumber made [.keyword "a", .int 1, .str "b"] ∧
        (callerOf 2 (.builtin .get) [made, .str "b", .nil]).perform smallHeap.afterNumber =
          (.ok (.int 6), smallHeap.afterNumber)) ∧
      ∃ made,
        (callerOf 2 (.builtin .dissoc) [small, .bool true]).perform smallHeap =
          (.ok made, smallHeap.afterNumber) ∧
        ShowsKeys 0 smallHeap.afterNumber made [.keyword "a"] := by
  have unused : smallHeap.HasUnusedNumbers :=
    (Expression.settled_empty.births_le (by decide)).hasUnusedNumbers
  have has : HasPlainKeys [(.keyword "a", .int 1), (.int 1, .str "one")] := by
    refine ⟨?_, by decide⟩
    simp only [Entries.keys, List.map_cons, List.map_nil, List.forall_mem_cons]
    exact ⟨rfl, rfl, List.forall_mem_nil _⟩
  have pairsPlain : ∀ pair ∈ given, pair.1.IsPlainKey := by
    simp only [given, List.forall_mem_cons]
    exact ⟨rfl, rfl, rfl, List.forall_mem_nil _⟩
  have removedPlain : ∀ key ∈ [Value.bool true], key.IsPlainKey := by
    simp only [List.forall_mem_cons]
    exact ⟨rfl, List.forall_mem_nil _⟩
  obtain ⟨⟨made, assoced, shows, gives⟩, ⟨left, dissoced, showsLeft, -⟩, -⟩ :=
    @maps_keep_order 0 smallHeap small _ given [.bool true] unused rfl has pairsPlain removedPlain
  refine ⟨unused, rfl, has, pairsPlain, removedPlain, ⟨made, assoced, ?_, ?_⟩,
    left, dissoced, ?_⟩
  · have keys : (Entries.keys [(Value.keyword "a", Value.int 1), (.int 1, .str "one")] ++
        (firstMentions (given.map Prod.fst)).filter fun key =>
          !(Entries.keys [(Value.keyword "a", Value.int 1), (.int 1, .str "one")]).any
            (·.equal key)) = [.keyword "a", .int 1, .str "b"] := by cbv
    exact keys ▸ shows
  · obtain ⟨found, -, isFound⟩ := gives (.str "b") .nil rfl
    have last : lastGiven? (.str "b") given = some (.int 6) := by cbv
    rw [isFound, last]
    rfl
  · have keys : ((Entries.keys [(Value.keyword "a", Value.int 1), (.int 1, .str "one")]).filter
        fun key => !([Value.bool true].any (·.equal key))) = [.keyword "a"] := by cbv
    exact keys ▸ showsLeft

end Collection

end CueScript
