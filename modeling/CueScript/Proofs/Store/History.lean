import CueScript.Proofs.Keys

/-!
# What a history of changes leaves

The contents of a store can be told from the changes that it has seen.  `lastWritten?` goes
back to the last change that matters to a key.  `firstWrites` goes through all writes and
picks those that put their key where there was none and that nothing has undone since.

`replay` makes the changes one after the other, as the operations on entries do.  What is
found in its result is what was written last, and its keys are those of the first writes.
-/

namespace CueScript

/-- A change of the contents of a store. -/
inductive Change where
  | write (key value : Value)
  | drop (key : Value)
  | clear

namespace Change

/-- Whether a change takes away what is stored under a key. -/
def forgets (key : Value) : Change → Bool
  | write _ _ => false
  | drop dropped => dropped.equal key
  | clear => true

/-- Whether a change is one of plain keys. -/
def IsPlain : Change → Prop
  | write key _ => key.IsPlainKey
  | drop key => key.IsPlainKey
  | clear => True

/-- The entries after a change. -/
def apply (entries : ValueEntries) : Change → ValueEntries
  | write key value => Entries.put Value.sameKey key value entries
  | drop key => Entries.erase Value.sameKey key entries
  | clear => []

end Change

/-- The changes that a store has seen, the last one first. -/
abbrev History := List Change

namespace History

/-- The value that was written last under a key, unless it has been taken away since. -/
def lastWritten? (key : Value) : History → Option Value
  | [] => none
  | .write written value :: earlier =>
      if written.equal key then some value else lastWritten? key earlier
  | .drop dropped :: earlier =>
      if dropped.equal key then none else lastWritten? key earlier
  | .clear :: _ => none

/-- Whether none of some changes takes away what is stored under a key. -/
def spare (changes : List Change) (key : Value) : Bool :=
  changes.all fun change => !change.forgets key

/-- The keys of the writes before which nothing was stored under their key, and after which
nothing took it away, from the first write on; some changes have come later. -/
def firstWrites (later : List Change) : History → List Value
  | [] => []
  | .write key value :: earlier =>
      firstWrites (.write key value :: later) earlier ++
        if lastWritten? key earlier = none ∧ spare later key = true then [key] else []
  | .drop key :: earlier => firstWrites (.drop key :: later) earlier
  | .clear :: earlier => firstWrites (.clear :: later) earlier

/-- The entries that the changes make, one after the other. -/
def replay : History → ValueEntries
  | [] => []
  | change :: earlier => change.apply (replay earlier)

/-- The history of a store that has just been opened: all that it holds was written then. -/
def opening (entries : ValueEntries) : History :=
  (entries.map fun entry => .write entry.1 entry.2).reverse

/-! ## Entries with plain keys -/

/-- Plain keys of which no two are equal. -/
structure HasPlainKeys (entries : ValueEntries) : Prop where
  plain : ∀ key ∈ Entries.keys entries, key.IsPlainKey
  distinct : ((Entries.keys entries).map Value.plainKey?).Nodup

namespace HasPlainKeys

variable {entries : ValueEntries} {key probe value : Value}

theorem tells (has : HasPlainKeys entries) (plain : probe.IsPlainKey) :
    Entries.Tells Value.sameKey Value.plainKey? probe (Entries.keys entries) :=
  fun stored member => Value.sameKey_iff_of_plain (has.plain stored member) plain

theorem empty : HasPlainKeys [] := ⟨fun _ member => (nomatch member), .nil⟩

theorem put (has : HasPlainKeys entries) (plain : key.IsPlainKey) :
    HasPlainKeys (Entries.put Value.sameKey key value entries) := by
  have keys := @Entries.keys_put_of_tells _ _ _ _ _ key value entries _ (has.tells plain)
  by_cases known : key.plainKey? ∈ (Entries.keys entries).map Value.plainKey?
  · rw [if_pos known] at keys
    constructor <;> rw [keys]
    · exact has.plain
    · exact has.distinct
  · rw [if_neg known] at keys
    constructor <;> rw [keys]
    · intro stored member
      rcases List.mem_append.mp member with old | new
      · exact has.plain stored old
      · exact List.mem_singleton.mp new ▸ plain
    · rw [List.map_append]
      refine List.nodup_append.mpr ⟨has.distinct, List.pairwise_singleton _ _, ?_⟩
      rintro kind isStored _ isKey rfl
      exact known (List.mem_singleton.mp isKey ▸ isStored)

theorem erase (has : HasPlainKeys entries) (plain : key.IsPlainKey) :
    HasPlainKeys (Entries.erase Value.sameKey key entries) := by
  have keys := Entries.keys_erase_of_tells (has.tells plain) has.distinct
  constructor <;> rw [keys]
  · exact fun stored member => has.plain stored (List.mem_filter.mp member).1
  · exact has.distinct.sublist (List.filter_sublist.map _)

/-- No two of the keys are equal. -/
theorem pairwise_unequal (has : HasPlainKeys entries) :
    (Entries.keys entries).Pairwise fun first second => first.equal second = false := by
  refine (List.pairwise_map.mp has.distinct).imp_of_mem ?_
  intro first second isFirst isSecond different
  rw [Bool.eq_false_iff]
  exact mt (Value.equal_iff_of_plain (has.plain first isFirst) (has.plain second isSecond)).mp
    different

/-- Plain keys of which no two are equal are of different kinds. -/
theorem of_pairwise_unequal
    (plain : ∀ key ∈ Entries.keys entries, key.IsPlainKey)
    (unequal : (Entries.keys entries).Pairwise fun first second => first.equal second = false) :
    HasPlainKeys entries := by
  refine ⟨plain, List.pairwise_map.mpr (unequal.imp_of_mem ?_)⟩
  intro first second isFirst isSecond different same
  rw [(Value.equal_iff_of_plain (plain first isFirst) (plain second isSecond)).mpr same]
    at different
  cases different

end HasPlainKeys

/-! ## What the changes make -/

section Replay

variable {history : History} {key : Value}

theorem hasPlainKeys_replay (plain : ∀ change ∈ history, change.IsPlain) :
    HasPlainKeys (replay history) := by
  induction history with
  | nil => exact .empty
  | cons change earlier inductionHypothesis =>
      have before := inductionHypothesis fun each member =>
        plain each (List.mem_cons_of_mem change member)
      have isPlain := plain change List.mem_cons_self
      cases change with
      | write written value => exact before.put isPlain
      | drop dropped => exact before.erase isPlain
      | clear => exact .empty

/-- What is found is what was written last. -/
theorem find?_replay
    (plain : ∀ change ∈ history, change.IsPlain) (keyPlain : key.IsPlainKey) :
    Entries.find? Value.sameKey key (replay history) = lastWritten? key history := by
  induction history with
  | nil => rfl
  | cons change earlier inductionHypothesis =>
      have plainBefore : ∀ each ∈ earlier, each.IsPlain := fun each member =>
        plain each (List.mem_cons_of_mem change member)
      have before := hasPlainKeys_replay plainBefore
      have isPlain := plain change List.mem_cons_self
      have found := inductionHypothesis plainBefore
      cases change with
      | clear => rfl
      | write written value =>
          have tells : Entries.Tells Value.sameKey Value.plainKey? key
              (written :: Entries.keys (replay earlier)) := by
            intro stored member
            rcases List.mem_cons.mp member with rfl | old
            · exact Value.sameKey_iff_of_plain isPlain keyPlain
            · exact before.tells keyPlain stored old
          rw [replay, Change.apply, Entries.find?_put_of_tells (before.tells isPlain) tells, found]
          simp only [lastWritten?, Value.equal_iff_of_plain isPlain keyPlain]
      | drop dropped =>
          rw [replay, Change.apply, Entries.find?_erase_of_tells (before.tells isPlain)
            (before.tells keyPlain) before.distinct, found]
          simp only [lastWritten?, Value.equal_iff_of_plain isPlain keyPlain]

/-- Nothing was written last under a key that is not there. -/
theorem lastWritten?_eq_none_iff
    (plain : ∀ change ∈ history, change.IsPlain) (keyPlain : key.IsPlainKey) :
    lastWritten? key history = none ↔
      key.plainKey? ∉ (Entries.keys (replay history)).map Value.plainKey? := by
  rw [← find?_replay plain keyPlain, ← Option.not_isSome_iff_eq_none,
    Entries.isSome_find?_of_tells ((hasPlainKeys_replay plain).tells keyPlain)]

/-- The first writes that changes made later have left are those of the keys there that none
of these takes away. -/
theorem firstWrites_eq (plain : ∀ change ∈ history, change.IsPlain) (later : List Change) :
    firstWrites later history = (Entries.keys (replay history)).filter (spare later) := by
  induction history generalizing later with
  | nil => rfl
  | cons change earlier inductionHypothesis =>
      have plainBefore : ∀ each ∈ earlier, each.IsPlain := fun each member =>
        plain each (List.mem_cons_of_mem change member)
      have before := hasPlainKeys_replay plainBefore
      have isPlain := plain change List.mem_cons_self
      cases change with
      | clear =>
          rw [firstWrites, inductionHypothesis plainBefore]
          exact List.filter_eq_nil_iff.mpr fun _ _ => by simp [spare, Change.forgets]
      | drop dropped =>
          rw [firstWrites, inductionHypothesis plainBefore, replay, Change.apply,
            Entries.keys_erase_of_tells (before.tells isPlain) before.distinct, List.filter_filter]
          refine List.filter_congr fun stored member => ?_
          have same := Value.equal_iff_of_plain isPlain (before.plain stored member)
          by_cases equal : dropped.equal stored = true
          · simp [spare, Change.forgets, equal, same.mp equal]
          · have different : ¬ stored.plainKey? = dropped.plainKey? := fun equalToo =>
              equal (same.mpr equalToo.symm)
            simp [spare, Change.forgets, equal, different]
      | write written value =>
          have spared : spare (.write written value :: later) = spare later := by
            funext key
            simp [spare, Change.forgets]
          rw [firstWrites, inductionHypothesis plainBefore, spared, replay, Change.apply,
            Entries.keys_put_of_tells (before.tells isPlain)]
          simp only [lastWritten?_eq_none_iff plainBefore isPlain]
          by_cases known : written.plainKey? ∈ (Entries.keys (replay earlier)).map Value.plainKey?
          · rw [if_neg fun both => both.1 known, if_pos known, List.append_nil]
          · rw [if_neg known, List.filter_append, List.filter_singleton]
            by_cases spares : spare later written = true
            · simp [known, spares]
            · simp [spares]

/-- The keys are those of the first writes, in their order and spelling. -/
theorem keys_replay (plain : ∀ change ∈ history, change.IsPlain) :
    Entries.keys (replay history) = firstWrites [] history := by
  rw [firstWrites_eq plain]
  exact (List.filter_eq_self.mpr fun _ _ => rfl).symm

/-- Entries that are written one after the other go after those that are there. -/
theorem replay_writes
    {entries : ValueEntries} {earlier : History}
    (has : HasPlainKeys (replay earlier ++ entries)) :
    replay ((entries.map fun entry => .write entry.1 entry.2).reverse ++ earlier) =
      replay earlier ++ entries := by
  induction entries generalizing earlier with
  | nil => exact (List.append_nil _).symm
  | cons entry rest inductionHypothesis =>
      obtain ⟨key, value⟩ := entry
      have here : key ∈ Entries.keys (replay earlier ++ (key, value) :: rest) := by
        simp [Entries.keys]
      have isNew : key.plainKey? ∉ (Entries.keys (replay earlier)).map Value.plainKey? := by
        have distinct := has.distinct
        simp only [Entries.keys, List.map_append, List.map_cons] at distinct
        exact fun known => (List.nodup_append.mp distinct).2.2 _ known _ List.mem_cons_self rfl
      have tells : Entries.Tells Value.sameKey Value.plainKey? key
          (Entries.keys (replay earlier)) := fun stored member =>
        has.tells (has.plain key here) stored (by
          simp only [Entries.keys, List.map_append] at member ⊢
          exact List.mem_append_left _ member)
      have written : replay (.write key value :: earlier) = replay earlier ++ [(key, value)] :=
        Entries.put_of_new tells isNew
      have later := @inductionHypothesis (.write key value :: earlier) (by
        rw [written, List.append_assoc]
        exact has)
      rw [written, List.append_assoc] at later
      rw [List.map_cons, List.reverse_cons, List.append_assoc]
      exact later

theorem replay_opening {entries : ValueEntries} (has : HasPlainKeys entries) :
    replay (opening entries) = entries := by
  have written := @replay_writes entries [] has
  rwa [List.append_nil] at written

theorem isPlain_opening
    {entries : ValueEntries} (plain : ∀ key ∈ Entries.keys entries, key.IsPlainKey) :
    ∀ change ∈ opening entries, change.IsPlain := by
  intro change member
  obtain ⟨entry, isEntry, rfl⟩ := List.mem_map.mp (List.mem_reverse.mp member)
  exact plain entry.1 (List.mem_map_of_mem isEntry)

end Replay

end History

end CueScript
