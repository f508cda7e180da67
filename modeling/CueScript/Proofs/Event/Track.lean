import CueScript.Proofs.Depth.Application

/-!
# The track of a player

`find-track*` reads three members of an event, looks the track up in nested maps, and writes
or drops the description.  `Access.answer` says what one look-up gives by what the value is,
`Access.Finds` how a path of keys is followed, and `Device.Course` which courses the whole
may take: in each of them, nothing is written before the last step, and the last step changes
one entry of one store.
-/

namespace CueScript

namespace Access

/-! ## Looking up a key -/

/-- The items of a list or a tuple. -/
def positions? : Value → Option (List Value)
  | .list items _ => some items
  | value => value.toTuple?

/-- What a value holds under a key: maps and stores hold values under keys, of which one may
have several spellings, lists and tuples hold items at positions, and nothing else holds
anything. -/
def held? (heap : Heap) (holder key : Value) : Except Fault (Option Value) :=
  match heap.current holder with
  | .map entries _ => (ValueEntries.get? entries key).mapError .failed
  | .store id => (ValueEntries.get? (heap.entries id) key).mapError .failed
  | collection =>
      match positions? collection, key with
      | some items, .int position => pure (nthItem? items position)
      | _, _ => pure none

/-- The look-up operation that a value brings itself: the member `get` of an event. -/
def ownGetter? : Value → Option Value
  | .event _ _ members =>
      match Entries.find? (· == ·) "get" members with
      | some .nil => none
      | found => found
  | _ => none

/-- What looking a key up in a value gives, and the heap after it: what the value holds, or
what its own look-up operation gives. -/
def answer (call : Caller) (heap : Heap) (holder key : Value) (default : Option Value) :
    Except Fault (Option Value) × Heap :=
  match ownGetter? (heap.current holder) with
  | some getter => (getWith call getter key default).perform heap
  | none => ((held? heap holder key).map (· <|> default), heap)

variable {call : Caller} {heap : Heap}

theorem eventMember?_get (origin : EventClass) (members : List (String × Value)) (event : Value) :
    eventMember? origin members event "get" = Entries.find? (· == ·) "get" members := by
  unfold eventMember?
  cases Entries.find? (· == ·) "get" members <;> simp

theorem perform_getter? (value : Value) :
    (getter? value).perform heap =
      (.ok (match value with
        | .map .. => some (.member value "get")
        | .store _ => some (.member value "get")
        | _ => ownGetter? value), heap) := by
  unfold getter?
  cases value with
  | event id origin members =>
      have isMember : (member? (.event id origin members) "get").perform heap =
          (.ok (eventMember? origin members (.event id origin members) "get"), heap) := rfl
      rw [Action.perform_bind_ok isMember, eventMember?_get, ownGetter?]
      rcases Entries.find? (· == ·) "get" members with _ | _ | _ <;> rfl
  | _ => rfl

theorem current_member (receiver : Value) (name : String) :
    heap.current (.member receiver name) = .member (heap.current receiver) name := by
  unfold Heap.current
  split <;> rfl

/-- What is found in the entries of a map or a store. -/
theorem perform_found (found : Except Failure (Option Value)) (default : Option Value) :
    (Action.ofExcept found >>= fun value =>
        (pure (value <|> default) : Action (Option Value))).perform heap =
      ((found.mapError .failed).map (· <|> default), heap) := by
  cases found <;> rfl

theorem perform_current_member {receiver : Value} (again : heap.current receiver = receiver)
    (name : String) :
    (Action.current (.member receiver name)).perform heap =
      (.ok (.member receiver name), heap) := by
  change (Except.ok (heap.current (.member receiver name)), heap) = _
  rw [current_member, again]

/-- A look-up gives what the value answers. -/
theorem perform_lookup (holder key : Value) (default : Option Value) :
    (lookup call holder key default).perform heap = answer call heap holder key default := by
  have isCurrent : (Action.current holder).perform heap = (.ok (heap.current holder), heap) := rfl
  have again : heap.current (heap.current holder) = heap.current holder :=
    Heap.current_current holder
  rw [lookup, Action.perform_bind_ok isCurrent, answer, held?]
  generalize heap.current holder = collection at again
  cases collection with
  | map entries birth =>
      have general : (getWith call (.member (.map entries birth) "get") key default).perform heap =
          (((ValueEntries.get? entries key).mapError .failed).map (· <|> default), heap) := by
        change (getPlainly call (.member (.map entries birth) "get") key default).perform heap = _
        rw [getPlainly, Action.perform_bind_ok (perform_current_member again "get")]
        exact perform_found ..
      cases key <;> exact general
  | store id =>
      have general : (getWith call (.member (.store id) "get") key default).perform heap =
          (((ValueEntries.get? (heap.entries id) key).mapError .failed).map (· <|> default),
            heap) := by
        change (getPlainly call (.member (.store id) "get") key default).perform heap = _
        rw [getPlainly, Action.perform_bind_ok (perform_current_member again "get")]
        exact perform_found ..
      cases key <;> exact general
  | event id origin members =>
      have isGetter : (getter? (.event id origin members)).perform heap =
          (.ok (ownGetter? (.event id origin members)), heap) := perform_getter? _
      cases own : ownGetter? (.event id origin members) with
      | none =>
          rw [own] at isGetter
          cases key <;> exact Action.perform_bind_ok isGetter
      | some getter =>
          rw [own] at isGetter
          cases key <;> exact Action.perform_bind_ok isGetter
  | _ => cases key <;> rfl

/-! ## Following a path -/

/-- Following the keys of a path from a value on, each in what the one before it gave: what
is found in the end, if every step gives something. -/
inductive Finds (call : Caller) :
    Heap → Value → List Value → Except Fault (Option Value) → Heap → Prop where
  | here {heap : Heap} {value : Value} : Finds call heap value [] (.ok (some value)) heap
  | next {heap between after : Heap} {holder key value : Value} {rest : List Value}
      {found : Option Value} {outcome : Except Fault (Option Value)}
      (given : answer call heap holder key none = (.ok found, between))
      (counts : answered 0 found = some value)
      (further : Finds call between value rest outcome after) :
      Finds call heap holder (key :: rest) outcome after
  | absent {heap after : Heap} {holder key : Value} {rest : List Value} {found : Option Value}
      (given : answer call heap holder key none = (.ok found, after))
      (counts : answered 0 found = none) :
      Finds call heap holder (key :: rest) (.ok none) after
  | fails {heap after : Heap} {holder key : Value} {rest : List Value} {fault : Fault}
      (given : answer call heap holder key none = (.error fault, after)) :
      Finds call heap holder (key :: rest) (.error fault) after

/-- What lies at the end of a path of keys, each held by what the one before it holds.  What
stands for no value counts for none. -/
def heldAlong? (heap : Heap) : Value → List Value → Except Fault (Option Value)
  | value, [] => pure (some value)
  | holder, key :: rest => do
      match answered 0 (← held? heap holder key) with
      | some next => heldAlong? heap next rest
      | none => pure none

theorem heldAlong?_of_held
    {holder key : Value} {found : Option Value} (held : held? heap holder key = .ok found)
    (rest : List Value) :
    heldAlong? heap holder (key :: rest) =
      match answered 0 found with
      | some next => heldAlong? heap next rest
      | none => .ok none := by
  rw [heldAlong?, held]
  rfl

/-- Whether no value on a path of keys brings a look-up operation of its own. -/
def Unasked (heap : Heap) : Value → List Value → Prop
  | _, [] => True
  | holder, key :: rest =>
      ownGetter? (heap.current holder) = none ∧
        ∀ next, held? heap holder key = .ok (some next) → Unasked heap next rest

theorem answer_of_plain
    {holder : Value} (plain : ownGetter? (heap.current holder) = none) (key : Value) :
    answer call heap holder key none = (held? heap holder key, heap) := by
  rw [answer, plain]
  simp only
  cases held? heap holder key with
  | error fault => rfl
  | ok found => cases found <;> rfl

/-- `get` gives what a value holds under a key, or `nil`. -/
theorem perform_get_plain
    {holder : Value} (plain : ownGetter? (heap.current holder) = none) (key : Value) :
    (Call.perform call .get [holder, key]).perform heap =
      ((held? heap holder key).map (·.getD .nil), heap) := by
  have looked : (lookup call holder key (some .nil)).perform heap =
      ((held? heap holder key).map (· <|> some .nil), heap) := by
    rw [perform_lookup, answer, plain]
  change (Device.lookup call holder key).perform heap = _
  rw [Device.lookup, Action.perform_bind, looked]
  cases held? heap holder key with
  | error fault => rfl
  | ok found => cases found <;> rfl

/-- Where no value on a path brings a look-up operation of its own, following the path gives
what is held along it, and changes nothing. -/
theorem Finds.of_unasked
    {after : Heap} {holder : Value} {keys : List Value} {outcome : Except Fault (Option Value)}
    (finds : Finds call heap holder keys outcome after) (unasked : Unasked heap holder keys) :
    outcome = heldAlong? heap holder keys ∧ after = heap := by
  have isHeld {heap after : Heap} {holder key : Value} {outcome : Except Fault (Option Value)}
      (given : answer call heap holder key none = (outcome, after))
      (plain : ownGetter? (heap.current holder) = none) :
      held? heap holder key = outcome ∧ heap = after :=
    Prod.mk.inj ((answer_of_plain plain key).symm.trans given)
  induction finds with
  | here => exact ⟨rfl, rfl⟩
  | next given counts further inductionHypothesis =>
      obtain ⟨held, rfl⟩ := isHeld given unasked.1
      obtain rfl := (Option.filter_eq_some_iff.mp counts).1
      rw [heldAlong?_of_held held, counts]
      exact inductionHypothesis (unasked.2 _ held)
  | absent given counts =>
      obtain ⟨held, rfl⟩ := isHeld given unasked.1
      exact ⟨by rw [heldAlong?_of_held held, counts], rfl⟩
  | fails given =>
      obtain ⟨held, rfl⟩ := isHeld given unasked.1
      rw [heldAlong?, held]
      exact ⟨rfl, rfl⟩

/-- One step along a path: look a key up in what was found before it. -/
def pathStep (call : Caller) (found : Option Value) (key : Value) :
    Action (Progress (Option Value)) := do
  match found with
  | none => return .enough none
  | some value =>
      match answered 0 (← lookup call value key none) with
      | some next => return .more (some next)
      | none => return .enough none

theorem finds_goThrough (all keys : List Value) (done : Nat) (heap : Heap) (value : Value) :
    Finds call heap value keys
      ((goThrough (.tuple all) (pathStep call) (keys.length + 1) done keys (some value)).perform
        heap).1
      ((goThrough (.tuple all) (pathStep call) (keys.length + 1) done keys (some value)).perform
        heap).2 := by
  have upcoming (rest : List Value) (done : Nat) (heap : Heap) :
      (upcoming (.tuple all) done rest).perform heap = (.ok rest, heap) := rfl
  induction keys generalizing done heap value with
  | nil => exact .here
  | cons key rest inductionHypothesis =>
      rw [goThrough, Action.perform_bind_ok (upcoming _ done heap)]
      simp only
      rw [Action.perform_bind, pathStep, Action.perform_bind, perform_lookup]
      rcases given : answer call heap value key none with ⟨fault | found, between⟩
      · exact .fails given
      · simp only
        cases counts : answered 0 found with
        | none => exact .absent given counts
        | some next => exact .next given counts (inductionHypothesis (done + 1) between next)

/-- A path of keys is followed key by key. -/
theorem finds_lookupPath
    (call : Caller) (heap : Heap) (collection : Value) (keys : List Value) :
    Finds call heap collection keys
      ((lookupPath call collection (.tuple keys)).perform heap).1
      ((lookupPath call collection (.tuple keys)).perform heap).2 :=
  finds_goThrough keys keys 0 heap collection

end Access

namespace Entries

/-! ## One entry among others -/

variable {κ α : Type} {same : κ → κ → Bool} {key : κ} {value : α} {entries : Entries κ α}

/-- The entries under other keys. -/
def others (same : κ → κ → Bool) (key : κ) (entries : Entries κ α) : Entries κ α :=
  entries.filter fun entry => !same entry.1 key

/-- Setting the value under a key leaves the other entries as they are. -/
theorem others_put (isSame : same key key = true) :
    others same key (put same key value entries) = others same key entries := by
  induction entries with
  | nil => simp [put, others, isSame]
  | cons entry rest inductionHypothesis =>
      obtain ⟨stored, old⟩ := entry
      rw [put]
      by_cases here : same stored key = true
      · rw [if_pos here]
        simp [others, here]
      · rw [if_neg here]
        simpa [others, here] using inductionHypothesis

/-- Erasing a key leaves the other entries as they are. -/
theorem others_erase : others same key (erase same key entries) = others same key entries := by
  induction entries with
  | nil => rfl
  | cons entry rest inductionHypothesis =>
      obtain ⟨stored, old⟩ := entry
      rw [erase]
      by_cases here : same stored key = true
      · rw [if_pos here]
        simp [others, here]
      · rw [if_neg here]
        simpa [others, here] using inductionHypothesis

end Entries

namespace ValueEntries

/-- Where no two keys are the same, nothing is found under a text that was erased. -/
theorem find?_erase_str
    {entries : ValueEntries} {text : String}
    (distinct : (Entries.keys entries).Pairwise fun first second =>
      Value.sameKey first second = false) :
    Entries.find? Value.sameKey (.str text)
      (Entries.erase Value.sameKey (.str text) entries) = none := by
  induction entries with
  | nil => rfl
  | cons entry rest inductionHypothesis =>
      obtain ⟨stored, old⟩ := entry
      rw [Entries.keys_cons, List.pairwise_cons] at distinct
      obtain ⟨notLater, restDistinct⟩ := distinct
      rw [Entries.erase]
      by_cases here : Value.sameKey stored (.str text) = true
      · rw [if_pos here, ← Option.not_isSome_iff_eq_none,
          Entries.isSome_find?_of_tells (tells_str text _)]
        intro among
        obtain ⟨other, isOther, sameKind⟩ := List.mem_map.mp among
        have kind := Value.sameKey_str_iff.mp here
        have otherKind : other.plainKey? = some (.text text) := sameKind
        have same : Value.sameKey stored other = true := by
          rw [Value.sameKey_iff_of_plain (by simp [Value.IsPlainKey, kind])
            (by simp [Value.IsPlainKey, otherKind]), kind, otherKind]
        rw [notLater other isOther] at same
        cases same
      · rw [if_neg here, Entries.find?, if_neg here]
        exact inductionHypothesis restDistinct

end ValueEntries

namespace Heap

/-- A store with a table of its own, in which no two keys are the same. -/
structure IsOpen (heap : Heap) (id : Nat) (store : Store) : Prop where
  isStore : heap.stores[id]? = some store
  inside : store.table < heap.tables.size
  alone : ∀ other held, other ≠ id → heap.stores[other]? = some held → held.table ≠ store.table
  distinct : (Entries.keys (heap.entries id)).Pairwise fun first second =>
    Value.sameKey first second = false

/-- Whether nothing has changed but what one store holds under a key. -/
structure Revised (before : Heap) (id : Nat) (key : Value) (held : Option Value)
    (after : Heap) (store : Store) : Prop where
  /-- This is what the store holds under the key now. -/
  here : Entries.find? Value.sameKey key (after.table store.table) = held
  /-- Its other entries are those that it had before, in their order. -/
  others : Entries.others Value.sameKey key (after.table store.table) =
    Entries.others Value.sameKey key (before.entries id)
  /-- The entries of every other store are untouched. -/
  stores : ∀ other kept, other ≠ id → before.stores[other]? = some kept →
    after.stores[other]? = some kept ∧ after.table kept.table = before.table kept.table
  /-- So is every other table, such as those of scopes. -/
  tables : ∀ table, table ≠ store.table → after.table table = before.table table
  /-- Nothing but tables is touched at all. -/
  rest : { after with tables := before.tables } = before

theorem table_setTable_of_ne
    {heap : Heap} {id table : Nat} (different : table ≠ id) (entries : ValueEntries) :
    (heap.setTable id entries).table table = heap.table table := by
  simp only [Heap.table, setTable, Array.getElem?_modify, if_neg (Ne.symm different)]

theorem IsOpen.revised
    {before : Heap} {id : Nat} {store : Store} {key : Value} {held : Option Value}
    {entries : ValueEntries} (isOpen : before.IsOpen id store)
    (here : Entries.find? Value.sameKey key entries = held)
    (others : Entries.others Value.sameKey key entries =
      Entries.others Value.sameKey key (before.entries id)) :
    before.Revised id key held (before.setEntries id entries) store := by
  have set : before.setEntries id entries = before.setTable store.table entries := by
    rw [setEntries, isOpen.isStore]
  rw [set]
  constructor
  · rw [table_setTable isOpen.inside]
    exact here
  · rw [table_setTable isOpen.inside]
    exact others
  · intro other kept isOther isKept
    exact ⟨isKept, table_setTable_of_ne (isOpen.alone other kept isOther isKept) entries⟩
  · exact fun table different => table_setTable_of_ne different entries
  · rfl

end Heap

namespace Device

open Access (Finds)
open Eval (callerOf)

/-! ## Courses -/

/-- The members of an event that a track is looked up by, in the order in which they are
read: player, slot and number. -/
def trackKeys (call : Caller) (status : Value) : Action (List Value) := do
  let player ← read call status "track_source_player"
  let slot ← trackSourceSlot call status
  let number ← read call status "rekordbox_id"
  return [player, slot, number]

/-- What comes of looking a track up: the members are read, and the path of the source and
these is followed from a store on. -/
inductive Sought (call : Caller) (status source : Value) (globals : Nat) (heap : Heap) :
    Except Fault (Option Value) → Heap → Prop where
  | unread {fault : Fault} {after : Heap}
      (reads : (trackKeys call status).perform heap = (.error fault, after)) :
      Sought call status source globals heap (.error fault) after
  | read {keys : List Value} {between after : Heap} {outcome : Except Fault (Option Value)}
      (reads : (trackKeys call status).perform heap = (.ok keys, between))
      (finds : Finds call between (.store globals) (source :: keys) outcome after) :
      Sought call status source globals heap outcome after

/-- The courses that looking a track up and describing it may take: which track is found, and
what becomes of the description. -/
inductive Course (call : Caller) (status source describer : Value) (locals globals : Nat)
    (heap : Heap) : Except Fault Value → Heap → Prop where
  /-- A member cannot be read or a look-up fails, and that is all. -/
  | failed {fault : Fault} {after : Heap}
      (sought : Sought call status source globals heap (.error fault) after) :
      Course call status source describer locals globals heap (.error fault) after
  /-- Without a source, nothing is done with the description. -/
  | untold {found : Option Value} {after : Heap}
      (sought : Sought call status source globals heap (.ok found) after)
      (noSource : source = .nil) :
      Course call status source describer locals globals heap (.ok (found.getD .nil)) after
  /-- A track is found and described, and the description is what the function gives. -/
  | described {track description : Value} {between told after : Heap}
      (sought : Sought call status source globals heap (.ok (some track)) between)
      (hasSource : source ≠ .nil) (isTrue : track.isTrue = true) (hasDescriber : describer ≠ .nil)
      (describes : (call describer [track]).perform between = (.ok description, told))
      (revised : ∀ store, told.IsOpen locals store →
        told.Revised locals descriptionKey (some (told.current description)) after store) :
      Course call status source describer locals globals heap (.ok track) after
  /-- A track is found, but the function fails, and that is all. -/
  | undescribed {track : Value} {fault : Fault} {between after : Heap}
      (sought : Sought call status source globals heap (.ok (some track)) between)
      (hasSource : source ≠ .nil) (isTrue : track.isTrue = true) (hasDescriber : describer ≠ .nil)
      (describes : (call describer [track]).perform between = (.error fault, after)) :
      Course call status source describer locals globals heap (.error fault) after
  /-- There is nothing to describe or no function to do so, and no description is left. -/
  | withdrawn {found : Option Value} {between after : Heap}
      (sought : Sought call status source globals heap (.ok found) between)
      (hasSource : source ≠ .nil)
      (nothingToTell : (found.getD .nil).isTrue = false ∨ describer = .nil)
      (revised : ∀ store, between.IsOpen locals store →
        between.Revised locals descriptionKey none after store) :
      Course call status source describer locals globals heap (.ok (found.getD .nil)) after

variable {frames : Nat} {heap : Heap} {locals : Nat}

theorem isKey_descriptionKey : descriptionKey.isKey = true := rfl

/-- An operation of a store is carried out on its arguments as they are now. -/
theorem perform_callerOf_store
    (frames : Nat) (heap : Heap) (locals : Nat) (operation : String) (args : List Value) :
    (callerOf (frames + 1) (.member (.store locals) operation) args).perform heap =
      (Store.perform (callerOf frames) locals operation (heap.currentItems args)).perform heap := by
  have isStore : heap.current (.store locals) = .store locals := by
    unfold Heap.current
    split <;> rfl
  change (Member.call (callerOf frames) (heap.current (.store locals)) operation
    (heap.currentItems args)).perform heap = _
  rw [isStore]
  rfl

theorem current_descriptionKey : heap.current descriptionKey = descriptionKey :=
  Heap.current_str _

theorem perform_withdraw :
    (withdraw (callerOf (frames + 1)) (.store locals)).perform heap =
      (.ok (), heap.setEntries locals
        (Entries.erase Value.sameKey descriptionKey (heap.entries locals))) := by
  have isMember : (Access.member (.store locals) "remove").perform heap =
      (.ok (.member (.store locals) "remove"), heap) := rfl
  have removed := perform_callerOf_store frames heap locals "remove" [descriptionKey]
  rw [← Heap.map_current_eq, List.map_cons, List.map_nil, current_descriptionKey] at removed
  have done := removed.trans (Store.perform_remove isKey_descriptionKey)
  rw [withdraw, Access.callMember, bind_assoc, Action.perform_bind_ok isMember,
    Action.perform_bind_ok done]
  rfl

theorem perform_publish (description : Value) :
    (callerOf (frames + 1) (.member (.store locals) "set")
      [descriptionKey, description]).perform heap =
      (.ok (heap.current description), heap.setEntries locals
        (Entries.put Value.sameKey descriptionKey (heap.current description)
          (heap.entries locals))) := by
  have stored := perform_callerOf_store frames heap locals "set" [descriptionKey, description]
  rw [← Heap.map_current_eq, List.map_cons, List.map_cons, List.map_nil,
    current_descriptionKey] at stored
  exact stored.trans (Store.perform_set isKey_descriptionKey)

/-- What is done with a description once a track has been looked up. -/
def keepInStep (call : Caller) (locals source describer : Value) (found : Option Value) :
    Action Value := do
  match source, describer with
  | .nil, _ => return found.getD .nil
  | _, .nil => do
      withdraw call locals
      return found.getD .nil
  | _, _ => do
      if (found.getD .nil).isTrue then
        describe call locals describer (found.getD .nil)
      else
        withdraw call locals
      return found.getD .nil

theorem findTrack_eq (call : Caller) (status locals globals source describer : Value) :
    findTrack call status locals globals source describer =
      (trackKeys call status >>= fun keys =>
        Access.lookupPath call globals (.tuple (source :: keys)) >>= fun found =>
          keepInStep call locals source describer found) := by
  simp only [findTrack, trackKeys, bind_assoc, pure_bind]
  rfl

section Steps

variable {call : Caller} {status source describer : Value} {globals : Nat} {found : Option Value}
  {left : Heap}

theorem keepInStep_withdraw
    {holder : Value} (hasSource : source ≠ .nil)
    (nothingToTell : (found.getD .nil).isTrue = false ∨ describer = .nil) :
    keepInStep call holder source describer found =
      (withdraw call holder >>= fun _ => return found.getD .nil) := by
  unfold keepInStep
  split
  · exact absurd rfl hasSource
  · rfl
  · next noDescriber =>
      rcases nothingToTell with isFalse | isNil
      · rw [isFalse]
        rfl
      · exact absurd isNil noDescriber

theorem keepInStep_describe
    {holder track : Value} (hasSource : source ≠ .nil) (isTrue : track.isTrue = true)
    (hasDescriber : describer ≠ .nil) :
    keepInStep call holder source describer (some track) =
      (describe call holder describer track >>= fun _ => return track) := by
  unfold keepInStep
  split
  · exact absurd rfl hasSource
  · exact absurd rfl hasDescriber
  · rw [Option.getD_some, isTrue]
    rfl

/-- The description is withdrawn: its entry is absent then. -/
theorem course_withdraw
    (sought : Sought (callerOf (frames + 1)) status source globals heap (.ok found) left)
    (hasSource : source ≠ .nil)
    (nothingToTell : (found.getD .nil).isTrue = false ∨ describer = .nil) :
    Course (callerOf (frames + 1)) status source describer locals globals heap
      ((keepInStep (callerOf (frames + 1)) (.store locals) source describer found).perform left).1
      ((keepInStep (callerOf (frames + 1)) (.store locals) source describer found).perform
        left).2 := by
  rw [keepInStep_withdraw hasSource nothingToTell, Action.perform_bind_ok perform_withdraw]
  refine .withdrawn sought hasSource nothingToTell fun store isOpen => ?_
  exact isOpen.revised (ValueEntries.find?_erase_str isOpen.distinct) Entries.others_erase

/-- The track is described: the entry is what the function gives, unless this fails. -/
theorem course_describe
    {track : Value}
    (sought : Sought (callerOf (frames + 1)) status source globals heap (.ok (some track)) left)
    (hasSource : source ≠ .nil) (isTrue : track.isTrue = true) (hasDescriber : describer ≠ .nil) :
    Course (callerOf (frames + 1)) status source describer locals globals heap
      ((keepInStep (callerOf (frames + 1)) (.store locals) source describer (some track)).perform
        left).1
      ((keepInStep (callerOf (frames + 1)) (.store locals) source describer (some track)).perform
        left).2 := by
  have isMember : (Access.member (.store locals) "set").perform left =
      (.ok (.member (.store locals) "set"), left) := rfl
  rw [keepInStep_describe hasSource isTrue hasDescriber, describe, bind_assoc,
    Action.perform_bind_ok isMember, bind_assoc]
  rcases describes : (callerOf (frames + 1) describer [track]).perform left with
    ⟨fault | description, told⟩
  · rw [Action.perform_bind_error describes]
    exact .undescribed sought hasSource isTrue hasDescriber describes
  · rw [Action.perform_bind_ok describes, bind_assoc,
      Action.perform_bind_ok (perform_publish description)]
    refine .described sought hasSource isTrue hasDescriber describes fun store isOpen => ?_
    have isText : Value.sameKey descriptionKey descriptionKey = true := rfl
    refine isOpen.revised ?_ (Entries.others_put isText)
    exact ValueEntries.find?_put_str.trans (if_pos rfl)

theorem course_keepInStep
    (sought : Sought (callerOf (frames + 1)) status source globals heap (.ok found) left) :
    Course (callerOf (frames + 1)) status source describer locals globals heap
      ((keepInStep (callerOf (frames + 1)) (.store locals) source describer found).perform left).1
      ((keepInStep (callerOf (frames + 1)) (.store locals) source describer found).perform
        left).2 := by
  by_cases hasSource : source = .nil
  · subst hasSource
    exact .untold sought rfl
  · by_cases isTrue : (found.getD .nil).isTrue = true
    · cases found with
      | none => cases isTrue
      | some track =>
          by_cases hasDescriber : describer = .nil
          · exact course_withdraw sought hasSource (.inr hasDescriber)
          · exact course_describe sought hasSource isTrue hasDescriber
    · exact course_withdraw sought hasSource (.inl (Bool.eq_false_iff.mpr isTrue))

end Steps

theorem course_findTrack
    (status source describer : Value) (globals : Nat) :
    Course (callerOf (frames + 1)) status source describer locals globals heap
      ((findTrack (callerOf (frames + 1)) status (.store locals) (.store globals) source
        describer).perform heap).1
      ((findTrack (callerOf (frames + 1)) status (.store locals) (.store globals) source
        describer).perform heap).2 := by
  rw [findTrack_eq, Action.perform_bind]
  rcases reads : (trackKeys (callerOf (frames + 1)) status).perform heap with
    ⟨fault | keys, between⟩
  · exact .failed (.unread reads)
  · have finds := Access.finds_lookupPath (callerOf (frames + 1)) between (.store globals)
      (source :: keys)
    simp only
    rw [Action.perform_bind]
    generalize (Access.lookupPath (callerOf (frames + 1)) (.store globals)
      (.tuple (source :: keys))).perform between = looked at finds
    rcases looked with ⟨fault | found, left⟩
    · exact .failed (.read reads finds)
    · exact course_keepInStep (.read reads finds)

/-! ## Events without effects -/

/-- Whether reading a member changes nothing: it is no method, or one that just gives a
value. -/
def isQuiet : Value → Bool
  | .method .. => true
  | value => !Access.isCallable value

/-- Whether an event has only members that change nothing when they are read. -/
def IsQuietEvent : Value → Prop
  | .event _ _ members => ∀ member ∈ members, isQuiet member.2 = true
  | _ => False

/-- Whether an action changes nothing, whatever it gives. -/
def Still {α : Type} (action : Action α) : Prop := ∀ heap : Heap, (action.perform heap).2 = heap

theorem Still.bind
    {α β : Type} {first : Action α} {next : α → Action β} (still : Still first)
    (stillNext : ∀ value, Still (next value)) : Still (first >>= next) := by
  intro heap
  have same := still heap
  rw [Action.perform_bind]
  rcases ran : first.perform heap with ⟨fault | value, after⟩
  · rw [ran] at same
    exact same
  · rw [ran] at same
    cases same
    exact stillNext value _

theorem still_pure {α : Type} (value : α) : Still (pure value : Action α) := fun _ => rfl

theorem perform_callerOf_method (id : Nat) (result : Value) :
    (callerOf (frames + 1) (.method id result) []).perform heap = (.ok result, heap) := by
  have noItems : (Action.currentItems []).perform heap = (.ok [], heap) := by
    change (Except.ok (heap.currentItems []), heap) = _
    unfold Heap.currentItems
    split <;> rfl
  change (Eval.call (Eval.solve frames) (.method id result) []).perform heap = _
  rw [Eval.call, Action.perform_bind_ok noItems]
  rfl

theorem still_callQuiet {value : Value} (quiet : isQuiet value = true) :
    Still (if Access.isCallable value then callerOf (frames + 1) value [] else pure value) := by
  intro heap
  cases value with
  | method id result => exact congrArg Prod.snd (perform_callerOf_method id result)
  | closure | builtin | instanceTest | keyword | member => cases quiet
  | _ => rfl

theorem still_read
    {status : Value} (quiet : IsQuietEvent status) {name : String} (other : name ≠ "from_mapping") :
    Still (read (callerOf (frames + 1)) status name) := by
  cases status with
  | event id origin members =>
      intro heap
      have isMember : (Access.member? (.event id origin members) name).perform heap =
          (.ok (Entries.find? (· == ·) name members), heap) := by
        have found : Access.eventMember? origin members (.event id origin members) name =
            Entries.find? (· == ·) name members := by
          unfold Access.eventMember?
          cases Entries.find? (· == ·) name members <;> simp [other]
        change (Except.ok (Access.eventMember? origin members (.event id origin members) name),
          heap) = _
        rw [found]
      rw [read, Access.member, bind_assoc, Action.perform_bind_ok isMember]
      cases found : Entries.find? (· == ·) name members with
      | none => rfl
      | some value =>
          have isQuietMember := quiet _ (Entries.mem_of_find? found)
          exact still_callQuiet isQuietMember heap
  | _ => exact quiet.elim

theorem still_display (value : Value) : Still (Action.display value) := by
  intro heap
  unfold Action.display Action.reading
  rw [Action.perform_get_bind]
  simp only
  cases heap.display value <;> rfl

theorem still_enumKeyword (value : Value) (allowed : List String) :
    Still (enumKeyword value allowed) := by
  cases value with
  | constant | kind => exact fun heap => rfl
  | _ => exact (still_display _).bind fun text => still_pure _

theorem still_trackKeys (frames : Nat) {status : Value} (quiet : IsQuietEvent status) :
    Still (trackKeys (callerOf (frames + 1)) status) := by
  have slot : Still (trackSourceSlot (callerOf (frames + 1)) status) :=
    (still_read quiet (by decide)).bind fun value => still_enumKeyword value _
  refine (still_read quiet (by decide)).bind fun player => slot.bind fun keyword => ?_
  exact (still_read quiet (by decide)).bind fun number => still_pure _

/-- Whether neither the members of an event nor the values on the path that they tell bring
functions with effects. -/
structure IsQuietSearch (call : Caller) (status source : Value) (globals : Nat) (heap : Heap) :
    Prop where
  members : IsQuietEvent status
  path : ∀ keys, (trackKeys call status).perform heap = (.ok keys, heap) →
    Access.Unasked heap (.store globals) (source :: keys)

/-- A quiet search changes nothing, and gives what lies at the end of the path. -/
theorem Sought.of_quiet
    {status source : Value} {globals : Nat} {outcome : Except Fault (Option Value)} {after : Heap}
    (sought : Sought (callerOf (frames + 1)) status source globals heap outcome after)
    (quiet : IsQuietSearch (callerOf (frames + 1)) status source globals heap) :
    after = heap ∧ ∀ keys, (trackKeys (callerOf (frames + 1)) status).perform heap =
      (.ok keys, heap) →
        outcome = Access.heldAlong? heap (.store globals) (source :: keys) := by
  have still := still_trackKeys frames quiet.members heap
  cases sought with
  | unread reads =>
      rw [reads] at still
      refine ⟨still, fun keys read => ?_⟩
      rw [reads] at read
      cases read
  | read reads finds =>
      rw [reads] at still
      cases still
      obtain ⟨found, same⟩ := finds.of_unasked (quiet.path _ reads)
      refine ⟨same, fun keys read => ?_⟩
      rw [reads] at read
      cases read
      exact found

/-! ## The built-in function -/

/-- The built-in function takes one of the courses.  Before a description is asked for, a
quiet search changes nothing; what it finds lies at the end of the path, each step of which
gives what `get` does. -/
theorem findTrack_inStep
    (status source : Value) (describer : Option Value) (globals : Nat) :
    Course (callerOf (frames + 1)) status source (describer.getD .nil) locals globals heap
        ((Call.perform (callerOf (frames + 1)) .findTrack
          ([status, .store locals, .store globals, source] ++ describer.toList)).perform heap).1
        ((Call.perform (callerOf (frames + 1)) .findTrack
          ([status, .store locals, .store globals, source] ++ describer.toList)).perform heap).2 ∧
      (IsQuietSearch (callerOf (frames + 1)) status source globals heap →
        ∀ outcome after,
          Sought (callerOf (frames + 1)) status source globals heap outcome after →
          after = heap ∧ ∀ keys,
            (trackKeys (callerOf (frames + 1)) status).perform heap = (.ok keys, heap) →
            outcome = Access.heldAlong? heap (.store globals) (source :: keys)) ∧
      ∀ holder key, Access.ownGetter? (heap.current holder) = none →
        (Call.perform (callerOf (frames + 1)) .get [holder, key]).perform heap =
          ((Access.held? heap holder key).map (·.getD .nil), heap) := by
  refine ⟨?_, fun quiet outcome after sought => sought.of_quiet quiet,
    fun holder key plain => Access.perform_get_plain plain key⟩
  cases describer <;> exact course_findTrack status source _ globals

/-- A track with a title. -/
def titled : Value := .map [(.str "title", .str "Strobe")] 0

/-- An event that tells of that track, one of its members being a method. -/
def titledEvent : Value :=
  .event 5 .record
    [(Event.kindMember, .kind .cdjStatus), ("track_source_player", .int 3),
      ("track_source_slot", .method 6 (.constant "USB_SLOT")), ("rekordbox_id", .int 4711)]

/-- A heap with two stores: one has an old description, and in the other there is the
track. -/
def titledHeap : Heap :=
  { Heap.empty with
    tables :=
      #[[(.int 1, .nil), (.keyword "track-description", .str "stale")],
        [(.str "tracks", .map
          [(.int 3, .map [(.keyword "usb-slot", .map [(.int 4711, titled)] 0)] 0)] 0)]]
    stores := #[⟨"locals", 0⟩, ⟨"globals", 1⟩] }

theorem trackKeys_titledEvent :
    (trackKeys (callerOf 2) titledEvent).perform titledHeap =
      (.ok [.int 3, .keyword "usb-slot", .int 4711], titledHeap) := by
  rfl

theorem isQuietSearch_titledEvent :
    IsQuietSearch (callerOf 2) titledEvent (.keyword "tracks") 1 titledHeap where
  members := by
    intro member isMember
    simp only [List.mem_cons, List.not_mem_nil, or_false] at isMember
    rcases isMember with rfl | rfl | rfl | rfl <;> rfl
  path := by
    intro keys read
    rw [trackKeys_titledEvent] at read
    cases read
    refine ⟨rfl, fun players held => ?_⟩
    obtain rfl := Option.some.inj (Except.ok.inj held)
    refine ⟨rfl, fun slots held => ?_⟩
    obtain rfl := Option.some.inj (Except.ok.inj held)
    refine ⟨rfl, fun numbers held => ?_⟩
    obtain rfl := Option.some.inj (Except.ok.inj held)
    exact ⟨rfl, fun _ _ => trivial⟩

theorem findTrack_inStep_titled :
    IsQuietSearch (callerOf 2) titledEvent (.keyword "tracks") 1 titledHeap ∧
      (∀ outcome after,
        Sought (callerOf 2) titledEvent (.keyword "tracks") 1 titledHeap outcome after →
          outcome = .ok (some titled) ∧ after = titledHeap) ∧
      ∃ after, Course (callerOf 2) titledEvent (.keyword "tracks") (.keyword "title") 0 1
          titledHeap (.ok titled) after ∧
        Entries.find? Value.sameKey descriptionKey (after.table 0) = some (.str "Strobe") := by
  obtain ⟨course, quiet, -⟩ := @findTrack_inStep 1 titledHeap 0 titledEvent
    (.keyword "tracks") (some (.keyword "title")) 1
  refine ⟨isQuietSearch_titledEvent, fun outcome after sought => ?_, _, course, rfl⟩
  obtain ⟨same, found⟩ := quiet isQuietSearch_titledEvent outcome after sought
  exact ⟨found _ trackKeys_titledEvent, same⟩

/-- An event with a method that counts in the globals. -/
def countingEvent : Value :=
  .event 5 .record
    [(Event.kindMember, .kind .cdjStatus),
      ("track_source_player", .closure 6 SpecialForm.unnamed [] none
        [.list [.symbol "store!", .symbol "g", .symbol ":seen", .int 2] 0] 0 0),
      ("track_source_slot", .str "USB_SLOT"), ("rekordbox_id", .int 7)]

/-- A heap with two stores, of which a scope knows the second. -/
def countingHeap : Heap :=
  { Heap.empty with
    tables := #[[(.str "store!", .builtin .put), (.str "g", .store 1)], [], []]
    stores := #[⟨"locals", 1⟩, ⟨"globals", 2⟩]
    scopes := #[⟨.table 0, []⟩]
    evaluators := #[⟨{}, 0⟩] }

/-- A method of the event changes the globals, though no function is given. -/
theorem findTrack_inStep_not :
    countingHeap.entries 1 = [] ∧
      ((Call.perform (callerOf 9) .findTrack
        [countingEvent, .store 0, .store 1, .keyword "tracks"]).perform countingHeap).1 =
          .ok .nil ∧
      ((Call.perform (callerOf 9) .findTrack
        [countingEvent, .store 0, .store 1, .keyword "tracks"]).perform countingHeap).2.entries 1 =
          [(.keyword "seen", .int 2)] := by
  exact ⟨rfl, rfl, rfl⟩

end Device

end CueScript
