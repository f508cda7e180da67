import CueScript.Proofs.Keys
import CueScript.Proofs.Run.Agree
import CueScript.Proofs.Run.Current
import CueScript.Proofs.Store.History
import CueScript.Store.Operation

/-!
# Requests to stores

What each operation on a store gives and what it leaves, where it is about a key that can be
one.  An operation about anything else leaves the heap as it is, and `update` does not even
call its function.
-/

namespace CueScript

namespace Action

variable {α : Type}

@[simp]
theorem perform_pure (value : α) (heap : Heap) :
    (pure value : Action α).perform heap = (.ok value, heap) := rfl

@[simp]
theorem perform_ofExcept_error (failure : Failure) (heap : Heap) :
    (ofExcept (.error failure) : Action α).perform heap = (.error (.failed failure), heap) := rfl

@[simp]
theorem perform_ofExcept_ok (value : α) (heap : Heap) :
    (ofExcept (.ok value)).perform heap = (.ok value, heap) := rfl

end Action

namespace Store

/-- A request to change a store. -/
inductive Request where
  | set (key value : Value)
  | remove (key : Value)
  | update (key function : Value) (args : List Value)
  | compareAndSet (key expected value : Value)
  | clear

/-- The key that a request is about. -/
def Request.key? : Request → Option Value
  | .set key _ => some key
  | .remove key => some key
  | .update key _ _ => some key
  | .compareAndSet key _ _ => some key
  | .clear => none

/-- Do what a request asks of a store. -/
def Request.run (call : Caller) (id : Nat) : Request → Action Value
  | .set key value => perform call id "set" [key, value]
  | .remove key => perform call id "remove" [key]
  | .update key function args => perform call id "update" (key :: function :: args)
  | .compareAndSet key expected value => perform call id "compare_and_set" [key, expected, value]
  | .clear => perform call id "clear" []

variable {call : Caller} {id : Nat} {heap after : Heap} {key value default : Value}
  {operation : ValueEntries → Except Failure ValueEntries}

theorem perform_contents : (contents id).perform heap = (.ok (heap.entries id), heap) := rfl

theorem perform_revise_ok
    {revised : ValueEntries} (done : operation (heap.entries id) = .ok revised) :
    (revise id operation).perform heap = (.ok (), heap.setEntries id revised) := by
  rw [revise, Action.perform_bind_ok perform_contents, done]
  rfl

theorem perform_revise_error
    {failure : Failure} (failed : operation (heap.entries id) = .error failure) :
    (revise id operation).perform heap = (.error (.failed failure), heap) := by
  rw [revise, Action.perform_bind_ok perform_contents, failed]
  rfl

/-! ## Keys that can be keys -/

section Keys

variable (isKey : key.isKey = true)

include isKey

theorem perform_find? :
    (find? id key).perform heap =
      (.ok (Entries.find? Value.sameKey key (heap.entries id)), heap) := by
  have found : ValueEntries.get? (heap.entries id) key =
      .ok (Entries.find? Value.sameKey key (heap.entries id)) := if_pos isKey
  rw [find?, Action.perform_bind_ok perform_contents, found, Action.perform_ofExcept_ok]

theorem perform_get :
    (get id key default).perform heap =
      (.ok ((Entries.find? Value.sameKey key (heap.entries id)).getD default), heap) := by
  rw [get, Action.perform_bind_ok (perform_find? isKey), Action.perform_pure]

theorem perform_set :
    (set id key value).perform heap =
      (.ok value, heap.setEntries id ((Change.write key value).apply (heap.entries id))) := by
  have stored : ValueEntries.put (heap.entries id) key value =
      .ok ((Change.write key value).apply (heap.entries id)) := if_pos isKey
  rw [set, Action.perform_bind_ok (perform_revise_ok stored), Action.perform_pure]

theorem perform_remove :
    (remove id key).perform heap =
      (.ok ((Entries.find? Value.sameKey key (heap.entries id)).getD .nil),
        heap.setEntries id ((Change.drop key).apply (heap.entries id))) := by
  have taken : ValueEntries.taken? (heap.entries id) key =
      .ok (Entries.find? Value.sameKey key (heap.entries id)) := by
    cases stored : heap.entries id with
    | nil => rfl
    | cons entry rest => exact if_pos isKey
  have left : ValueEntries.erase (heap.entries id) key =
      .ok ((Change.drop key).apply (heap.entries id)) := by
    cases stored : heap.entries id with
    | nil => rfl
    | cons entry rest => exact if_pos isKey
  rw [remove, Action.perform_bind_ok perform_contents, taken,
    Action.perform_bind_ok (Action.perform_ofExcept_ok _ _),
    Action.perform_bind_ok (perform_revise_ok left), Action.perform_pure]

variable {function expected : Value} {args : List Value}

theorem perform_compareAndSet :
    (compareAndSet id key expected value).perform heap =
      let isExpected :=
        ((Entries.find? Value.sameKey key (heap.entries id)).getD .nil).equal expected
      (.ok isExpected, if isExpected = true then
          heap.setEntries id ((Change.write key value).apply (heap.entries id))
        else heap) := by
  rw [compareAndSet, Action.perform_bind_ok (perform_get isKey)]
  cases isExpected :
      ((Entries.find? Value.sameKey key (heap.entries id)).getD .nil).equal expected with
  | true => exact Action.perform_bind_ok (perform_set isKey)
  | false => rfl

namespace Request

theorem run_set :
    ((Request.set key value).run call id).perform heap =
      (.ok value, heap.setEntries id ((Change.write key value).apply (heap.entries id))) :=
  perform_set isKey

theorem run_remove :
    ((Request.remove key).run call id).perform heap =
      (.ok ((Entries.find? Value.sameKey key (heap.entries id)).getD .nil),
        heap.setEntries id ((Change.drop key).apply (heap.entries id))) :=
  perform_remove isKey

theorem run_compareAndSet :
    ((Request.compareAndSet key expected value).run call id).perform heap =
      let isExpected :=
        ((Entries.find? Value.sameKey key (heap.entries id)).getD .nil).equal expected
      (.ok (.bool isExpected), if isExpected = true then
          heap.setEntries id ((Change.write key value).apply (heap.entries id))
        else heap) :=
  Action.perform_bind_ok (perform_compareAndSet isKey)

/-- The function of an update sees the old value; what it gives is set where it has left
things. -/
theorem run_update_ok
    (called : (call function
      ((Entries.find? Value.sameKey key (heap.entries id)).getD .nil :: args)).perform heap =
        (.ok value, after)) :
    ((Request.update key function args).run call id).perform heap =
      (.ok value, after.setEntries id ((Change.write key value).apply (after.entries id))) := by
  have got := @perform_get id heap key .nil isKey
  rw [run, perform, Store.update, Action.perform_bind_ok got, Action.perform_bind_ok called,
    perform_set isKey]

/-- An update whose function fails sets nothing. -/
theorem run_update_error
    {fault : Fault}
    (called : (call function
      ((Entries.find? Value.sameKey key (heap.entries id)).getD .nil :: args)).perform heap =
        (.error fault, after)) :
    ((Request.update key function args).run call id).perform heap = (.error fault, after) := by
  have got := @perform_get id heap key .nil isKey
  rw [run, perform, Store.update, Action.perform_bind_ok got, Action.perform_bind_error called]

end Request

end Keys

/-! ## Anything else -/

section Others

variable (noKey : key.isKey = false)

include noKey

theorem withKey_of_noKey {α : Type} (result : α) :
    ValueEntries.withKey key result = .error .wrongType :=
  if_neg (Bool.eq_false_iff.mp noKey)

theorem perform_get_of_noKey :
    (get id key default).perform heap = (.error (.failed .wrongType), heap) := by
  have failed : (find? id key).perform heap = (.error (.failed .wrongType), heap) := by
    rw [find?, Action.perform_bind_ok perform_contents, ValueEntries.get?, withKey_of_noKey noKey,
      Action.perform_ofExcept_error]
  rw [get, Action.perform_bind_error failed]

theorem perform_set_of_noKey :
    (set id key value).perform heap = (.error (.failed .wrongType), heap) := by
  have failed : ValueEntries.put (heap.entries id) key value = .error .wrongType :=
    withKey_of_noKey noKey _
  rw [set, Action.perform_bind_error (perform_revise_error failed)]

/-- Where nothing is stored, removing does not look at the key; there is nothing to
remove. -/
theorem perform_remove_of_noKey :
    (remove id key).perform heap =
      (if (heap.entries id).isEmpty = true then .ok .nil else .error (.failed .wrongType),
        heap) := by
  rw [remove, Action.perform_bind_ok perform_contents]
  by_cases empty : (heap.entries id).isEmpty = true
  · have taken : ValueEntries.taken? (heap.entries id) key = .ok none := if_pos empty
    have left : ValueEntries.erase (heap.entries id) key = .ok [] := if_pos empty
    rw [if_pos empty, taken, Action.perform_bind_ok (Action.perform_ofExcept_ok _ _),
      Action.perform_bind_ok (perform_revise_ok left), Action.perform_pure,
      Heap.setEntries_of_isEmpty empty]
    rfl
  · have taken : ValueEntries.taken? (heap.entries id) key = .error .wrongType :=
      (if_neg empty).trans (withKey_of_noKey noKey _)
    rw [if_neg empty, taken, Action.perform_bind_error (Action.perform_ofExcept_error _ _)]

/-- A request about what cannot be a key leaves everything as it is. -/
theorem Request.run_of_noKey
    {request : Request} (about : request.key? = some key) :
    ((request.run call id).perform heap).2 = heap := by
  cases request with
  | set stored value =>
      cases about
      exact congrArg Prod.snd (perform_set_of_noKey noKey)
  | remove stored =>
      cases about
      exact congrArg Prod.snd (perform_remove_of_noKey noKey)
  | update stored function args =>
      cases about
      exact congrArg Prod.snd (Action.perform_bind_error (perform_get_of_noKey noKey))
  | compareAndSet stored expected value =>
      cases about
      exact congrArg Prod.snd (Action.perform_bind_error
        (Action.perform_bind_error (perform_get_of_noKey noKey)))
  | clear => cases about

end Others

end Store

end CueScript
