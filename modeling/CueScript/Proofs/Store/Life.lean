import CueScript.Eval
import CueScript.Proofs.Run.Current
import CueScript.Proofs.Store.Request

/-!
# The life of a store

A store is opened with some entries and lives on: it gets requests, and between them things
happen that leave it alone.  A request to update it calls a function, which may send the same
store requests of its own before it ends.

Whatever has happened, the store shows its history: what it gives out is what was written
last, and its keys stand in the order and the spelling of their first writes.
-/

namespace CueScript

namespace Value

/-- A plain key is always up to date. -/
theorem current_of_isPlainKey
    {key : Value} (plain : key.IsPlainKey) (holdings : Holdings) :
    key.current holdings = key := by
  cases key with
  | nil | bool | int | str | keyword => rfl
  | _ => cases plain

end Value

namespace Heap

variable {heap later : Heap} {id : Nat}

/-- The entries of a store with plain keys are those of its table, with values that are up
to date. -/
theorem entries_of_plain
    {store : Store} (isStore : heap.stores[id]? = some store)
    (plain : ∀ key ∈ Entries.keys (heap.table store.table), key.IsPlainKey) :
    heap.entries id = Entries.mapValues heap.current (heap.table store.table) := by
  unfold entries current
  simp only [isStore]
  split
  · exact (List.map_id _).symm
  · rw [Value.currentEntries_eq]
    apply List.map_congr_left
    intro entry member
    have key := plain entry.1 (List.mem_map_of_mem member)
    rw [Value.current_of_isPlainKey key]
    rfl

/-- Values that were brought up to date earlier are brought up to date as if they had not
been. -/
theorem Remembers.mapValues_current (remembers : later.Remembers heap) (entries : ValueEntries) :
    Entries.mapValues later.current (Entries.mapValues heap.current entries) =
      Entries.mapValues later.current entries := by
  rw [Entries.mapValues, Entries.mapValues, Entries.mapValues, List.map_map]
  exact List.map_congr_left fun entry _ => Prod.ext rfl (remembers.current entry.2)

end Heap

namespace Change

/-- A change makes no difference between values as they were and as they are later. -/
theorem mapValues_apply
    {later heap : Heap} (remembers : later.Remembers heap) (change : Change)
    (entries : ValueEntries) :
    Entries.mapValues later.current (change.apply (Entries.mapValues heap.current entries)) =
      Entries.mapValues later.current (change.apply entries) := by
  cases change with
  | write key value =>
      rw [apply, apply, Entries.mapValues_put, Entries.mapValues_put,
        remembers.mapValues_current]
  | drop key =>
      rw [apply, apply, Entries.mapValues_erase, Entries.mapValues_erase,
        remembers.mapValues_current]
  | clear => rfl

end Change

namespace Store

/-! ## What a store holds -/

/-- Whether some entries are those of a store, in a heap and as long as this remembers. -/
structure Holds (store : Store) (id : Nat) (entries : ValueEntries) (heap : Heap) : Prop where
  isStore : heap.stores[id]? = some store
  inside : store.table < heap.tables.size
  same : ∀ later : Heap, later.Remembers heap →
    Entries.mapValues later.current (heap.table store.table) =
      Entries.mapValues later.current entries

/-- Whether a heap has become another and a store has been left alone. -/
structure Spared (id : Nat) (heap after : Heap) : Prop where
  stores : after.stores[id]? = heap.stores[id]?
  tables : ∀ store, heap.stores[id]? = some store →
    after.tables[store.table]? = heap.tables[store.table]?
  remembers : after.Remembers heap

namespace Holds

variable {store : Store} {id : Nat} {entries : ValueEntries} {heap after : Heap}

theorem entries_eq (holds : Holds store id entries heap) (has : History.HasPlainKeys entries) :
    heap.entries id = Entries.mapValues heap.current entries := by
  have same := holds.same heap (.refl heap)
  have keys : Entries.keys (heap.table store.table) = Entries.keys entries := by
    rw [← Entries.keys_mapValues heap.current, same, Entries.keys_mapValues]
  rw [Heap.entries_of_plain holds.isStore (keys ▸ has.plain), same]

theorem spared (holds : Holds store id entries heap) (spared : Spared id heap after) :
    Holds store id entries after := by
  have table := spared.tables store holds.isStore
  refine ⟨spared.stores.trans holds.isStore, ?_, fun later remembers => ?_⟩
  · have held := Array.getElem?_eq_getElem holds.inside
    rw [← table] at held
    exact (Array.getElem?_eq_some_iff.mp held).1
  · have unchanged : after.table store.table = heap.table store.table := by
      rw [Heap.table, table, Heap.table]
    rw [unchanged]
    exact holds.same later (remembers.trans spared.remembers)

/-- A change of what a store holds is the same change of the entries. -/
theorem change
    (holds : Holds store id entries heap) (has : History.HasPlainKeys entries) (change : Change) :
    Holds store id (change.apply entries)
      (heap.setEntries id (change.apply (heap.entries id))) := by
  rw [holds.entries_eq has]
  have set (contents : ValueEntries) :
      heap.setEntries id contents = heap.setTable store.table contents := by
    rw [Heap.setEntries, holds.isStore]
  rw [set]
  refine ⟨holds.isStore, ?_, fun later remembers => ?_⟩
  · simpa [Heap.setTable] using holds.inside
  · have remembersToo : later.Remembers heap := ⟨remembers.losses, remembers.views⟩
    rw [Heap.table_setTable holds.inside]
    exact Change.mapValues_apply remembersToo change entries

end Holds

/-! ## Lives -/

/-- What is there under a key by the history of a store, as it is now; `nil` if nothing is. -/
def presentBy (history : History) (heap : Heap) (key : Value) : Value :=
  ((history.lastWritten? key).map heap.current).getD .nil

/-- What can become of a store with some history: it is left alone or gets a request, one
after the other.  What an update calls may do the same before it ends. -/
inductive Life (call : Caller) (id : Nat) : History → Heap → History → Heap → Prop where
  | beginning (history : History) (heap : Heap) : Life call id history heap history heap
  | alone {first history : History} {start heap after : Heap}
      (life : Life call id first start history heap) (spared : Spared id heap after) :
      Life call id first start history after
  | set {first history : History} {start heap : Heap} {key : Value}
      (life : Life call id first start history heap) (plain : key.IsPlainKey) (value : Value) :
      Life call id first start (.write key value :: history)
        (((Request.set key value).run call id).perform heap).2
  | remove {first history : History} {start heap : Heap} {key : Value}
      (life : Life call id first start history heap) (plain : key.IsPlainKey) :
      Life call id first start (.drop key :: history)
        (((Request.remove key).run call id).perform heap).2
  | clear {first history : History} {start heap : Heap}
      (life : Life call id first start history heap) :
      Life call id first start (.clear :: history) ((Request.clear.run call id).perform heap).2
  | exchange {first history : History} {start heap : Heap} {key expected : Value}
      (life : Life call id first start history heap) (plain : key.IsPlainKey)
      (equal : (presentBy history heap key).equal expected = true) (value : Value) :
      Life call id first start (.write key value :: history)
        (((Request.compareAndSet key expected value).run call id).perform heap).2
  | keep {first history : History} {start heap : Heap} {key expected : Value}
      (life : Life call id first start history heap) (plain : key.IsPlainKey)
      (unequal : (presentBy history heap key).equal expected = false) (value : Value) :
      Life call id first start history
        (((Request.compareAndSet key expected value).run call id).perform heap).2
  | update {first history further : History} {start heap after : Heap} {key function value : Value}
      {args : List Value}
      (life : Life call id first start history heap) (plain : key.IsPlainKey)
      (called : (call function (presentBy history heap key :: args)).perform heap =
        (.ok value, after))
      (inside : Life call id history heap further after) :
      Life call id first start (.write key value :: further)
        (((Request.update key function args).run call id).perform heap).2
  | fail {first history further : History} {start heap after : Heap} {key function : Value}
      {args : List Value} {fault : Fault}
      (life : Life call id first start history heap) (plain : key.IsPlainKey)
      (called : (call function (presentBy history heap key :: args)).perform heap =
        (.error fault, after))
      (inside : Life call id history heap further after) :
      Life call id first start further
        (((Request.update key function args).run call id).perform heap).2
  | refuse {first history : History} {start heap : Heap} {request : Request} {key : Value}
      (life : Life call id first start history heap) (about : request.key? = some key)
      (noKey : key.isKey = false) :
      Life call id first start history ((request.run call id).perform heap).2

/-- Whether a store holds what the changes of its history make. -/
structure Follows (store : Store) (id : Nat) (history : History) (heap : Heap) : Prop where
  plain : ∀ change ∈ history, change.IsPlain
  holds : Holds store id history.replay heap

namespace Follows

variable {call : Caller} {store : Store} {id : Nat} {history : History} {heap after : Heap}
  {key value : Value}

theorem entries_eq (follows : Follows store id history heap) :
    heap.entries id = Entries.mapValues heap.current history.replay :=
  follows.holds.entries_eq (History.hasPlainKeys_replay follows.plain)

/-- What is found under a key is what was written last. -/
theorem find?_eq (follows : Follows store id history heap) (plain : key.IsPlainKey) :
    Entries.find? Value.sameKey key (heap.entries id) =
      (history.lastWritten? key).map heap.current := by
  rw [follows.entries_eq, Entries.find?_mapValues, History.find?_replay follows.plain plain]

theorem presentBy_eq (follows : Follows store id history heap) (plain : key.IsPlainKey) :
    (Entries.find? Value.sameKey key (heap.entries id)).getD .nil = presentBy history heap key := by
  rw [follows.find?_eq plain, presentBy]

theorem change
    (follows : Follows store id history heap) {change : Change} (plain : change.IsPlain) :
    Follows store id (change :: history)
      (heap.setEntries id (change.apply (heap.entries id))) where
  plain each member := by
    rcases List.mem_cons.mp member with rfl | earlier
    · exact plain
    · exact follows.plain each earlier
  holds := follows.holds.change (History.hasPlainKeys_replay follows.plain) change

theorem alone (follows : Follows store id history heap) (spared : Spared id heap after) :
    Follows store id history after :=
  ⟨follows.plain, follows.holds.spared spared⟩

end Follows

/-- A store that holds what its history makes does so for life. -/
theorem Life.follows
    {call : Caller} {store : Store} {id : Nat} {first history : History} {start heap : Heap}
    (life : Life call id first start history heap) (follows : Follows store id first start) :
    Follows store id history heap := by
  induction life with
  | beginning => exact follows
  | alone _ spared before => exact (before follows).alone spared
  | set _ plain value before =>
      rw [Request.run_set (Value.isKey_of_isPlainKey plain)]
      exact (before follows).change plain
  | remove _ plain before =>
      rw [Request.run_remove (Value.isKey_of_isPlainKey plain)]
      exact (before follows).change plain
  | clear _ before => exact (before follows).change trivial
  | exchange _ plain equal value before =>
      rw [Request.run_compareAndSet (Value.isKey_of_isPlainKey plain),
        (before follows).presentBy_eq plain]
      simp only [equal, if_true]
      exact (before follows).change plain
  | keep _ plain unequal value before =>
      rw [Request.run_compareAndSet (Value.isKey_of_isPlainKey plain),
        (before follows).presentBy_eq plain]
      simp only [unequal, Bool.false_eq_true, if_false]
      exact before follows
  | update _ plain called _ before meanwhile =>
      -- The call begins where the life has come to, and the write is made where it ends.
      rw [← (before follows).presentBy_eq plain] at called
      rw [Request.run_update_ok (Value.isKey_of_isPlainKey plain) called]
      exact (meanwhile (before follows)).change plain
  | fail _ plain called _ before meanwhile =>
      rw [← (before follows).presentBy_eq plain] at called
      rw [Request.run_update_error (Value.isKey_of_isPlainKey plain) called]
      exact meanwhile (before follows)
  | refuse _ about noKey before =>
      rw [Request.run_of_noKey noKey about]
      exact before follows

/-! ## What a store shows -/

/-- Whether a store shows some history: iterating it, asking it for keys and comparing give
what the history tells, and a request that fails because of its key or its function leaves
things as they are. -/
structure Shows (call : Caller) (id : Nat) (history : History) (heap : Heap) : Prop where
  /-- No two keys are equal. -/
  distinct : (Entries.keys (heap.entries id)).Pairwise fun key other => key.equal other = false
  /-- The keys stand in the order and the spelling of their first writes. -/
  iterated : (Access.items (.store id)).perform heap = (.ok (history.firstWrites []), heap)
  /-- What is given out is what was written last, or else the default. -/
  got : ∀ key default : Value, key.IsPlainKey →
    (perform call id "get" [key, default]).perform heap =
      (.ok (((history.lastWritten? key).map heap.current).getD default), heap)
  /-- Where what is there is as expected, the value is set, and else nothing happens. -/
  compared : ∀ key expected value : Value, key.IsPlainKey →
    ((Request.compareAndSet key expected value).run call id).perform heap =
      if (presentBy history heap key).equal expected = true then
        (.ok (.bool true), (((Request.set key value).run call id).perform heap).2)
      else (.ok (.bool false), heap)
  /-- A request about what cannot be a key leaves all as it is. -/
  refused : ∀ (request : Request) (key : Value), request.key? = some key → key.isKey = false →
    ((request.run call id).perform heap).2 = heap
  /-- An update leaves what its function has left if this fails without touching the store. -/
  failed : ∀ (key function : Value) (args : List Value) (fault : Fault) (after : Heap),
    key.IsPlainKey →
    (call function (presentBy history heap key :: args)).perform heap = (.error fault, after) →
    Spared id heap after →
    ((Request.update key function args).run call id).perform heap = (.error fault, after) ∧
      after.entries id = Entries.mapValues after.current (heap.entries id)

theorem Follows.shows
    {call : Caller} {store : Store} {id : Nat} {history : History} {heap : Heap}
    (follows : Follows store id history heap) :
    Shows call id history heap := by
  have has := History.hasPlainKeys_replay follows.plain
  have keys : Entries.keys (heap.entries id) = history.firstWrites [] := by
    rw [follows.entries_eq, Entries.keys_mapValues, History.keys_replay follows.plain]
  constructor
  case distinct =>
    rw [follows.entries_eq, Entries.keys_mapValues]
    exact has.pairwise_unequal
  case iterated =>
    rw [← keys]
    rfl
  case got =>
    intro key default plain
    rw [← follows.find?_eq plain]
    exact perform_get (Value.isKey_of_isPlainKey plain)
  case compared =>
    intro key expected value plain
    have isKey := Value.isKey_of_isPlainKey plain
    rw [Request.run_compareAndSet isKey, Request.run_set isKey, follows.presentBy_eq plain]
    cases (presentBy history heap key).equal expected with
    | true => rfl
    | false => rfl
  case refused => exact fun request key about noKey => Request.run_of_noKey noKey about
  case failed =>
    intro key function args fault after plain called spared
    rw [← follows.presentBy_eq plain] at called
    refine ⟨Request.run_update_error (Value.isKey_of_isPlainKey plain) called, ?_⟩
    rw [(follows.alone spared).entries_eq, follows.entries_eq,
      spared.remembers.mapValues_current]

/-- A store that has just been opened holds what was written then. -/
theorem follows_opening
    {initial : ValueEntries} (has : History.HasPlainKeys initial) (name : String) (start : Heap) :
    Follows ⟨name, start.tables.size⟩ start.stores.size (.opening initial)
      (start.openStore name initial).2 where
  plain := History.isPlain_opening has.plain
  holds := by
    rw [History.replay_opening has]
    refine ⟨Array.getElem?_push_size, ?_, fun later _ => ?_⟩
    · exact Nat.lt_of_lt_of_eq (Nat.lt_succ_self _) (Array.size_push _).symm
    · have held : (start.openStore name initial).2.table start.tables.size = initial := by
        rw [Heap.table]
        exact congrArg (Option.getD · []) Array.getElem?_push_size
      rw [held]

/-- A store shows its history for life: whatever requests it gets, also from the functions
of its own updates, and whatever happens elsewhere. -/
theorem shows_history
    {call : Caller} {name : String} {initial : ValueEntries} {start heap : Heap}
    {history : History}
    (plain : ∀ key ∈ Entries.keys initial, key.IsPlainKey)
    (unequal : (Entries.keys initial).Pairwise fun key other => key.equal other = false)
    (life : Life call start.stores.size (.opening initial) (start.openStore name initial).2
      history heap) :
    Shows call start.stores.size history heap := by
  have has := History.HasPlainKeys.of_pairwise_unequal plain unequal
  exact (life.follows (follows_opening has name start)).shows

/-- Functions as they are called when a run begins. -/
def calls : Caller := fun function args => Eval.solve 1 (.call function args)

/-- What a store is opened with. -/
def labelled : ValueEntries := [(.keyword "a", .str "b")]

/-- The heap after the store has been opened and a value has been set. -/
def flagged : Heap :=
  (((Request.set (.bool true) .nil).run calls 0).perform (Heap.empty.openStore "" labelled).2).2

/-- The heap after an update of the label that has set the value under it. -/
def swapped : Heap :=
  (((Request.update (.str "a") (.member (.store 0) "set") [.int 7]).run calls 0).perform flagged).2

/-- The changes that lead there. -/
def swappings : History :=
  [.write (.str "a") (.int 7), .write (.str "b") (.int 7), .write (.bool true) .nil,
    .write (.keyword "a") (.str "b")]

theorem shows_history_swapped :
    (∀ key ∈ Entries.keys labelled, key.IsPlainKey) ∧
      ((Entries.keys labelled).Pairwise fun key other => key.equal other = false) ∧
      Life calls 0 (.opening labelled) (Heap.empty.openStore "" labelled).2 swappings swapped ∧
      Shows calls 0 swappings swapped := by
  have plain : ∀ key ∈ Entries.keys labelled, key.IsPlainKey := by decide
  have unequal : (Entries.keys labelled).Pairwise fun key other => key.equal other = false :=
    List.pairwise_singleton _ _
  have other : (Value.bool true).equal (.str "a") = false :=
    Bool.eq_false_iff.mpr (mt (Value.equal_iff_of_plain (by decide) (by decide)).mp (by decide))
  have spelled : (Value.keyword "a").equal (.str "a") = true :=
    (Value.equal_iff_of_plain (by decide) (by decide)).mpr rfl
  have before : Life calls 0 (.opening labelled) (Heap.empty.openStore "" labelled).2
      [.write (.bool true) .nil, .write (.keyword "a") (.str "b")] flagged :=
    .set (.beginning _ _) (by decide) .nil
  have present : presentBy [.write (.bool true) .nil, .write (.keyword "a") (.str "b")] flagged
      (.str "a") = .str "b" := by
    simp [presentBy, History.lastWritten?, other, spelled]
  have life : Life calls 0 (.opening labelled) (Heap.empty.openStore "" labelled).2 swappings
      swapped := by
    refine .update before (by decide) ?_ (.set (.beginning _ _) (by decide) (.int 7))
    rw [present]
    rfl
  exact ⟨plain, unequal, life,
    @shows_history calls "" labelled Heap.empty swapped swappings plain unequal life⟩

end Store

end CueScript
