import CueScript.Entries
import Mathlib.Data.List.Basic

/-!
# Entries told apart by the kinds of their keys

A key can have several spellings.  Where a probe shares an entry with just the keys of its
own kind, what is found under it is what was put last under a key of that kind, and the keys
stand in the order in which their kinds came, each in its first spelling.

Where only equal keys are the same, each key is a kind of its own.
-/

namespace CueScript

namespace Entries

theorem mem_put
    {κ α : Type} {same : κ → κ → Bool} {entries : Entries κ α} {key : κ} {value : α}
    {entry : κ × α} (member : entry ∈ put same key value entries) :
    entry ∈ entries ∨ entry.2 = value := by
  induction entries with
  | nil =>
      rw [List.mem_singleton.mp member]
      exact .inr rfl
  | cons first rest inductionHypothesis =>
      obtain ⟨stored, old⟩ := first
      rw [put] at member
      split at member
      · rcases List.mem_cons.mp member with rfl | later
        · exact .inr rfl
        · exact .inl (List.mem_cons_of_mem _ later)
      · rcases List.mem_cons.mp member with rfl | later
        · exact .inl List.mem_cons_self
        · exact (inductionHypothesis later).imp_left (List.mem_cons_of_mem _)

/-! ## Kinds of keys -/

/-- Whether a probe shares an entry with the keys of its own kind, among some keys. -/
def Tells {κ ι : Type} (same : κ → κ → Bool) (kind : κ → ι) (probe : κ) (stored : List κ) :
    Prop :=
  ∀ key ∈ stored, same key probe = true ↔ kind key = kind probe

section Kinds

variable {κ ι α : Type} {same : κ → κ → Bool} {kind : κ → ι} {key probe : κ} {value : α}
  {entries : Entries κ α}

theorem Tells.tail {first : κ} {rest : List κ} (tells : Tells same kind probe (first :: rest)) :
    Tells same kind probe rest := fun key member => tells key (List.mem_cons_of_mem first member)

theorem Tells.head {first : κ} {rest : List κ} (tells : Tells same kind probe (first :: rest)) :
    same first probe = true ↔ kind first = kind probe := tells first List.mem_cons_self

@[simp]
theorem keys_cons (entry : κ × α) (rest : Entries κ α) :
    keys (entry :: rest) = entry.1 :: keys rest := rfl

theorem isSome_find?_of_tells (tells : Tells same kind probe (keys entries)) :
    (find? same probe entries).isSome = true ↔ kind probe ∈ (keys entries).map kind := by
  induction entries with
  | nil => simp [find?, keys]
  | cons entry rest inductionHypothesis =>
      obtain ⟨stored, old⟩ := entry
      have later := inductionHypothesis tells.tail
      rw [keys_cons, List.map_cons, List.mem_cons]
      by_cases isSame : same stored probe = true
      · simp [find?, isSame, tells.head.mp isSame]
      · have other : kind probe ≠ kind stored := fun equal => isSame (tells.head.mpr equal.symm)
        simp only [find?, if_neg isSame, other, false_or]
        exact later

/-- An entry with a key of a new kind goes last. -/
theorem put_of_new
    (tells : Tells same kind key (keys entries)) (isNew : kind key ∉ (keys entries).map kind) :
    put same key value entries = entries ++ [(key, value)] := by
  induction entries with
  | nil => rfl
  | cons entry rest inductionHypothesis =>
      obtain ⟨stored, old⟩ := entry
      rw [keys_cons, List.map_cons, List.mem_cons, not_or] at isNew
      have other : ¬ same stored key = true := fun isSame =>
        isNew.1 (tells.head.mp isSame).symm
      rw [put, if_neg other, inductionHypothesis tells.tail isNew.2, List.cons_append]

variable [DecidableEq ι]

/-- What was put last under a key of the same kind is found. -/
theorem find?_put_of_tells
    (tellsKey : Tells same kind key (keys entries))
    (tells : Tells same kind probe (key :: keys entries)) :
    find? same probe (put same key value entries) =
      if kind key = kind probe then some value else find? same probe entries := by
  induction entries with
  | nil =>
      by_cases isKind : kind key = kind probe
      · simp [put, find?, tells.head.mpr isKind, isKind]
      · simp [put, find?, mt tells.head.mp isKind, isKind]
  | cons entry rest inductionHypothesis =>
      obtain ⟨stored, old⟩ := entry
      have tellsRest : Tells same kind probe (key :: keys rest) := fun each member => by
        rcases List.mem_cons.mp member with rfl | member
        · exact tells.head
        · exact tells.tail.tail each member
      have later := inductionHypothesis tellsKey.tail tellsRest
      by_cases isSame : same stored key = true
      · have sameKind := tellsKey.head.mp isSame
        rw [put, if_pos isSame, find?, find?]
        by_cases isKind : kind key = kind probe
        · rw [if_pos (tells.tail.head.mpr (sameKind.trans isKind)), if_pos isKind]
        · have otherKind : ¬ same stored probe = true := fun isProbe =>
            isKind (sameKind.symm.trans (tells.tail.head.mp isProbe))
          rw [if_neg otherKind, if_neg isKind, if_neg otherKind]
      · rw [put, if_neg isSame, find?, find?, later]
        by_cases isKind : kind key = kind probe
        · have otherKind : ¬ same stored probe = true := fun isProbe =>
            isSame (tellsKey.head.mpr ((tells.tail.head.mp isProbe).trans isKind.symm))
          rw [if_neg otherKind]
          simp only [if_pos isKind]
        · simp only [if_neg isKind]

/-- A key that comes back to its place keeps the spelling that is there; a new one goes
last. -/
theorem keys_put_of_tells (tells : Tells same kind key (keys entries)) :
    keys (put same key value entries) =
      if kind key ∈ (keys entries).map kind then keys entries else keys entries ++ [key] := by
  induction entries with
  | nil => rfl
  | cons entry rest inductionHypothesis =>
      obtain ⟨stored, old⟩ := entry
      have later := inductionHypothesis tells.tail
      by_cases isSame : same stored key = true
      · have here : kind key ∈ (keys ((stored, old) :: rest)).map kind :=
          List.mem_map.mpr ⟨stored, List.mem_cons_self, tells.head.mp isSame⟩
        rw [if_pos here, put, if_pos isSame]
        rfl
      · have other : kind key ≠ kind stored := fun equal => isSame (tells.head.mpr equal.symm)
        rw [put, if_neg isSame, keys_cons, keys_cons, List.map_cons, later]
        by_cases known : kind key ∈ (keys rest).map kind
        · rw [if_pos known, if_pos (List.mem_cons_of_mem _ known)]
        · have new : kind key ∉ kind stored :: (keys rest).map kind := fun member =>
            (List.mem_cons.mp member).elim other known
          rw [if_neg known, if_neg new, List.cons_append]

/-- Where no two keys are of one kind, none of that kind is left. -/
theorem keys_erase_of_tells
    (tells : Tells same kind probe (keys entries))
    (distinct : ((keys entries).map kind).Nodup) :
    keys (erase same probe entries) =
      (keys entries).filter fun key => decide (kind key ≠ kind probe) := by
  induction entries with
  | nil => rfl
  | cons entry rest inductionHypothesis =>
      obtain ⟨stored, old⟩ := entry
      obtain ⟨notLater, restDistinct⟩ := List.nodup_cons.mp distinct
      have later := inductionHypothesis tells.tail restDistinct
      by_cases isSame : same stored probe = true
      · have isKind := tells.head.mp isSame
        have others : ∀ key ∈ keys rest, decide (kind key ≠ kind probe) = true := by
          intro key member
          refine decide_eq_true fun equal => notLater ?_
          exact List.mem_map.mpr ⟨key, member, equal.trans isKind.symm⟩
        rw [erase, if_pos isSame, keys_cons]
        simp only [List.filter_cons, isKind, ne_eq, not_true_eq_false, decide_false,
          Bool.false_eq_true, if_false]
        exact (List.filter_eq_self.mpr others).symm
      · have other : kind stored ≠ kind probe := fun equal => isSame (tells.head.mpr equal)
        rw [erase, if_neg isSame, keys_cons, keys_cons, later]
        simp only [List.filter_cons, other, ne_eq, not_false_eq_true, decide_true, if_true]

/-- Nothing is found under the kind of a key that was erased, and all else is. -/
theorem find?_erase_of_tells
    (tellsKey : Tells same kind key (keys entries))
    (tells : Tells same kind probe (keys entries))
    (distinct : ((keys entries).map kind).Nodup) :
    find? same probe (erase same key entries) =
      if kind key = kind probe then none else find? same probe entries := by
  induction entries with
  | nil => exact (ite_self _).symm
  | cons entry rest inductionHypothesis =>
      obtain ⟨stored, old⟩ := entry
      obtain ⟨notLater, restDistinct⟩ := List.nodup_cons.mp distinct
      have later := inductionHypothesis tellsKey.tail tells.tail restDistinct
      by_cases isSame : same stored key = true
      · have isKind := tellsKey.head.mp isSame
        rw [erase, if_pos isSame, find?]
        by_cases isProbe : kind key = kind probe
        · rw [if_pos isProbe, ← Option.not_isSome_iff_eq_none, isSome_find?_of_tells tells.tail]
          intro member
          exact notLater (isKind.trans isProbe ▸ member)
        · have other : ¬ same stored probe = true := fun equal =>
            isProbe (isKind.symm.trans (tells.head.mp equal))
          rw [if_neg isProbe, if_neg other]
      · rw [erase, if_neg isSame, find?, find?, later]
        by_cases isProbe : kind key = kind probe
        · have other : ¬ same stored probe = true := fun equal =>
            isSame (tellsKey.head.mpr ((tells.head.mp equal).trans isProbe.symm))
          rw [if_neg other]
          simp only [if_pos isProbe]
        · simp only [if_neg isProbe]

end Kinds

/-! ## Entries with other values -/

/-- The same keys with other values. -/
def mapValues {κ α β : Type} (revise : α → β) (entries : Entries κ α) : Entries κ β :=
  entries.map (Prod.map id revise)

section OtherValues

variable {κ α β : Type} {same : κ → κ → Bool} (revise : α → β) (entries : Entries κ α)

@[simp]
theorem keys_mapValues : keys (mapValues revise entries) = keys entries := by
  simp [keys, mapValues, Function.comp_def]

theorem find?_mapValues (probe : κ) :
    find? same probe (mapValues revise entries) = (find? same probe entries).map revise := by
  induction entries with
  | nil => rfl
  | cons entry rest inductionHypothesis =>
      obtain ⟨stored, old⟩ := entry
      rw [mapValues, List.map_cons, ← mapValues, Prod.map_apply, find?, find?, inductionHypothesis]
      by_cases isSame : same stored probe = true
      · simp [isSame]
      · simp [isSame]

theorem mapValues_put (key : κ) (value : α) :
    mapValues revise (put same key value entries) =
      put same key (revise value) (mapValues revise entries) := by
  induction entries with
  | nil => rfl
  | cons entry rest inductionHypothesis =>
      obtain ⟨stored, old⟩ := entry
      by_cases isSame : same stored key = true
      · simp [mapValues, put, isSame]
      · simpa [mapValues, put, isSame] using inductionHypothesis

theorem mapValues_erase (probe : κ) :
    mapValues revise (erase same probe entries) = erase same probe (mapValues revise entries) := by
  induction entries with
  | nil => rfl
  | cons entry rest inductionHypothesis =>
      obtain ⟨stored, old⟩ := entry
      by_cases isSame : same stored probe = true
      · simp [mapValues, erase, isSame]
      · simpa [mapValues, erase, isSame] using inductionHypothesis

end OtherValues

/-! ## Keys of their own kind -/

variable {κ α : Type} [BEq κ] [LawfulBEq κ] {key probe : κ} {value : α} {entries : Entries κ α}

theorem tells_id (probe : κ) (stored : List κ) : Tells (· == ·) id probe stored :=
  fun _ _ => beq_iff_eq

theorem find?_put :
    find? (· == ·) probe (put (· == ·) key value entries) =
      if key == probe then some value else find? (· == ·) probe entries := by
  have : DecidableEq κ := instDecidableEqOfLawfulBEq
  rw [find?_put_of_tells (tells_id key _) (tells_id probe _)]
  by_cases same : key = probe
  · simp [same]
  · simp [same]

theorem isSome_find?_iff :
    (find? (· == ·) probe entries).isSome = true ↔ probe ∈ keys entries := by
  rw [isSome_find?_of_tells (tells_id probe _), List.map_id]
  rfl

theorem mem_of_find?
    (found : find? (· == ·) probe entries = some value) : (probe, value) ∈ entries := by
  induction entries with
  | nil => cases found
  | cons entry rest inductionHypothesis =>
      obtain ⟨stored, old⟩ := entry
      by_cases same : stored = probe
      · subst same
        rw [find?, if_pos (beq_self_eq_true _)] at found
        cases found
        exact List.mem_cons_self
      · rw [find?, if_neg (by simpa using same)] at found
        exact List.mem_cons_of_mem _ (inductionHypothesis found)

theorem find?_of_mem
    (distinct : (keys entries).Nodup) (member : (key, value) ∈ entries) :
    find? (· == ·) key entries = some value := by
  induction entries with
  | nil => cases member
  | cons entry rest inductionHypothesis =>
      obtain ⟨stored, old⟩ := entry
      obtain ⟨notLater, restDistinct⟩ := List.nodup_cons.mp distinct
      rcases List.mem_cons.mp member with isFirst | isLater
      · cases isFirst
        simp [find?]
      · have different : stored ≠ key := by
          rintro rfl
          exact notLater (List.mem_map.mpr ⟨_, isLater, rfl⟩)
        rw [find?, if_neg (by simpa using different)]
        exact inductionHypothesis restDistinct isLater

theorem nodup_put (distinct : (keys entries).Nodup) :
    (keys (put (· == ·) key value entries)).Nodup := by
  have : DecidableEq κ := instDecidableEqOfLawfulBEq
  rw [keys_put_of_tells (tells_id key _), List.map_id]
  by_cases member : id key ∈ keys entries
  · rw [if_pos member]
    exact distinct
  · rw [if_neg member]
    exact List.nodup_append.mpr ⟨distinct, List.pairwise_singleton _ key, by
      rintro a isStored b isKey rfl
      exact member (List.mem_singleton.mp isKey ▸ isStored)⟩

end Entries

end CueScript
