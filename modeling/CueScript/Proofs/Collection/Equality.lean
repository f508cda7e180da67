import CueScript.Proofs.Store.History
import Mathlib.Data.List.Forall2
import Mathlib.Data.List.Nodup
import Mathlib.Data.List.Perm.Subperm

/-!
# Equality of data

Data are `nil`, truth values, integers, strings and keywords, and lists and maps of these.
Equality of data is an equivalence, although it is decided from the left: a map is equal to
another if it has as many entries and each of its keys is there with a matching value.

Inside lists and maps, a list or a map matches what has the same number, whatever it holds.
Numbers stand for identity, so this is equality where a number belongs to one thing only.
-/

namespace CueScript

namespace Entries

variable {κ ι α : Type} {same : κ → κ → Bool} {kind : κ → ι} {probe : κ} {value : α}
  {entries : Entries κ α}

theorem exists_mem_of_find?
    (tells : Tells same kind probe (keys entries)) (found : find? same probe entries = some value) :
    ∃ key, (key, value) ∈ entries ∧ kind key = kind probe := by
  induction entries with
  | nil => cases found
  | cons entry rest inductionHypothesis =>
      obtain ⟨stored, old⟩ := entry
      rw [find?] at found
      by_cases here : same stored probe = true
      · rw [if_pos here] at found
        cases found
        exact ⟨stored, List.mem_cons_self, tells.head.mp here⟩
      · rw [if_neg here] at found
        obtain ⟨key, member, isKind⟩ := inductionHypothesis tells.tail found
        exact ⟨key, List.mem_cons_of_mem _ member, isKind⟩

/-- Where no two keys are of one kind, an entry is found under every key of its kind. -/
theorem find?_of_mem_of_tells
    {key : κ} (tells : Tells same kind probe (keys entries))
    (distinct : ((keys entries).map kind).Nodup) (member : (key, value) ∈ entries)
    (isKind : kind key = kind probe) : find? same probe entries = some value := by
  induction entries with
  | nil => cases member
  | cons entry rest inductionHypothesis =>
      obtain ⟨stored, old⟩ := entry
      obtain ⟨notLater, restDistinct⟩ := List.nodup_cons.mp distinct
      rw [find?]
      rcases List.mem_cons.mp member with isFirst | isLater
      · cases isFirst
        rw [if_pos (tells.head.mpr isKind)]
      · have other : ¬ same stored probe = true := by
          intro isSame
          apply notLater
          rw [tells.head.mp isSame, ← isKind]
          exact List.mem_map_of_mem (List.mem_map_of_mem isLater)
        rw [if_neg other]
        exact inductionHypothesis tells.tail restDistinct isLater

end Entries

namespace Value

open History (HasPlainKeys)

/-! ## Data -/

/-- `nil`, truth values, integers, strings and keywords, and lists and maps of these; the
keys of a map are plain, and no two of them are equal. -/
inductive IsData : Value → Prop where
  | plain {value : Value} (isPlain : value.IsPlainKey) : IsData value
  | list {items : List Value} {birth : Nat} (eachItem : ∀ item ∈ items, IsData item) :
      IsData (.list items birth)
  | map {entries : List (Value × Value)} {birth : Nat} (has : HasPlainKeys entries)
      (eachValue : ∀ entry ∈ entries, IsData entry.2) : IsData (.map entries birth)

/-- What a value is made of: the value itself, the items of its lists and the values of its
maps. -/
inductive Part : Value → Value → Prop where
  | self {value : Value} : Part value value
  | item {items : List Value} {birth : Nat} {item part : Value} (member : item ∈ items)
      (inside : Part item part) : Part (.list items birth) part
  | entry {entries : List (Value × Value)} {birth : Nat} {entry : Value × Value} {part : Value}
      (member : entry ∈ entries) (inside : Part entry.2 part) : Part (.map entries birth) part

/-- Whether no two different things that some values are made of have the same number. -/
def Numbered (values : List Value) : Prop :=
  ∀ first ∈ values, ∀ second ∈ values, ∀ part other, Part first part → Part second other →
    sameBirth part other = true → part = other

/-- Data among which no two different things have the same number, with all that they are
made of. -/
structure IsWorld (among : Value → Prop) : Prop where
  data : ∀ value, among value → IsData value
  items : ∀ items birth, among (.list items birth) → ∀ item ∈ items, among item
  values : ∀ entries birth, among (.map entries birth) → ∀ entry ∈ entries, among entry.2
  numbered : ∀ first second, among first → among second → sameBirth first second = true →
    first = second

theorem IsData.hasPlainKeys
    {entries : List (Value × Value)} {birth : Nat} (data : IsData (.map entries birth)) :
    HasPlainKeys entries := by
  cases data with
  | plain isPlain => cases isPlain
  | map has => exact has

theorem Part.isData {value part : Value} (isPart : Part value part) (data : IsData value) :
    IsData part := by
  induction isPart with
  | self => exact data
  | item member inside inductionHypothesis =>
      cases data with
      | plain isPlain => cases isPlain
      | list eachItem => exact inductionHypothesis (eachItem _ member)
  | entry member inside inductionHypothesis =>
      cases data with
      | plain isPlain => cases isPlain
      | map has eachValue => exact inductionHypothesis (eachValue _ member)

theorem Part.trans {first second third : Value} (outer : Part first second)
    (inner : Part second third) : Part first third := by
  induction outer with
  | self => exact inner
  | item member inside inductionHypothesis => exact .item member (inductionHypothesis inner)
  | entry member inside inductionHypothesis => exact .entry member (inductionHypothesis inner)

/-- What numbered data are made of. -/
theorem isWorld_of_numbered
    {values : List Value} (data : ∀ value ∈ values, IsData value) (numbered : Numbered values) :
    IsWorld fun part => ∃ value ∈ values, Part value part where
  data part := by
    rintro ⟨value, member, isPart⟩
    exact isPart.isData (data value member)
  items items birth := by
    rintro ⟨value, member, isPart⟩ item isItem
    exact ⟨value, member, isPart.trans (.item isItem .self)⟩
  values entries birth := by
    rintro ⟨value, member, isPart⟩ entry isEntry
    exact ⟨value, member, isPart.trans (.entry isEntry .self)⟩
  numbered part other := by
    rintro ⟨first, isFirst, isPart⟩ ⟨second, isSecond, isOther⟩ same
    exact numbered first isFirst second isSecond part other isPart isOther same

/-! ## Matching -/

theorem matchItems_iff {items others : List Value} :
    matchItems items others = true ↔
      List.Forall₂ (fun item other => agrees item other = true) items others := by
  induction items generalizing others with
  | nil => cases others <;> simp [matchItems]
  | cons item rest inductionHypothesis =>
      cases others with
      | nil => simp [matchItems]
      | cons other left =>
          rw [matchItems, Bool.and_eq_true, inductionHypothesis, List.forall₂_cons]
          rfl

theorem matchEntries_iff {entries others : List (Value × Value)} :
    matchEntries entries others = true ↔
      ∀ entry ∈ entries, ∃ other, Entries.find? sameKey entry.1 others = some other ∧
        agrees entry.2 other = true := by
  induction entries with
  | nil => simp [matchEntries]
  | cons entry rest inductionHypothesis =>
      obtain ⟨key, value⟩ := entry
      rw [matchEntries, Bool.and_eq_true, inductionHypothesis, List.forall_mem_cons, matchEntry]
      apply and_congr_left'
      cases Entries.find? sameKey key others with
      | none => simp
      | some other => simp [agrees]

/-- Data are equal to themselves. -/
theorem equal_self {value : Value} (data : IsData value) : equal value value = true := by
  induction data with
  | plain isPlain => exact (equal_iff_of_plain isPlain isPlain).mpr rfl
  | list eachItem inductionHypothesis =>
      rw [equal, matchItems_iff, List.forall₂_same]
      intro item member
      rw [agrees, inductionHypothesis item member, Bool.or_true]
  | map has eachValue inductionHypothesis =>
      rw [equal, Bool.and_eq_true, matchEntries_iff]
      refine ⟨beq_self_eq_true _, fun entry member => ⟨entry.2, ?_, ?_⟩⟩
      · have isPlain := has.plain entry.1 (List.mem_map_of_mem member)
        exact Entries.find?_of_mem_of_tells (has.tells isPlain) has.distinct member rfl
      · rw [agrees, inductionHypothesis entry member, Bool.or_true]

/-! ## What equal data are made of -/

section Made

variable {first second : Value} {entries others : List (Value × Value)} {birth number : Nat}

theorem equal_iff_of_isPlainKey (isPlain : first.IsPlainKey) (data : IsData second) :
    equal first second = true ↔ first.plainKey? = second.plainKey? := by
  cases data with
  | plain isPlainToo => exact equal_iff_of_plain isPlain isPlainToo
  | list | map =>
      cases first with
      | nil | bool | int | str | keyword => simp [equal, equalAtom, equalText, toNumeric?, toText?,
          plainKey?]
      | _ => cases isPlain

theorem equal_list_iff {items : List Value} :
    equal (.list items birth) second = true ↔
      ∃ others number, second = .list others number ∧
        List.Forall₂ (fun item other => agrees item other = true) items others := by
  cases second with
  | list others number => simp [equal, matchItems_iff]
  | _ => simp [equal]

theorem equal_map_iff :
    equal (.map entries birth) second = true ↔
      ∃ others number, second = .map others number ∧ entries.length = others.length ∧
        ∀ entry ∈ entries, ∃ other, Entries.find? sameKey entry.1 others = some other ∧
          agrees entry.2 other = true := by
  cases second with
  | map others number => simp [equal, matchEntries_iff]
  | _ => simp [equal]

/-- If a map has a matching value under each key of a map with as many entries, it has no
other entries. -/
theorem exists_entry_of_matching
    (has : HasPlainKeys entries) (hasToo : HasPlainKeys others)
    (sameLength : entries.length = others.length)
    (matching : ∀ entry ∈ entries, ∃ other, Entries.find? sameKey entry.1 others = some other ∧
      agrees entry.2 other = true)
    {other : Value × Value} (member : other ∈ others) :
    ∃ entry ∈ entries, entry.1.plainKey? = other.1.plainKey? ∧ agrees entry.2 other.2 = true := by
  have subset : (Entries.keys entries).map plainKey? ⊆ (Entries.keys others).map plainKey? := by
    intro kind isKind
    obtain ⟨key, isKey, rfl⟩ := List.mem_map.mp isKind
    obtain ⟨entry, isEntry, rfl⟩ := List.mem_map.mp isKey
    obtain ⟨matched, found, -⟩ := matching entry isEntry
    rw [← Entries.isSome_find?_of_tells (hasToo.tells (has.plain entry.1 isKey)), found]
    rfl
  -- As many keys, no two of one kind, and each kind among the others: there are no others.
  have permuted : ((Entries.keys entries).map plainKey?).Perm
      ((Entries.keys others).map plainKey?) := by
    apply (List.subperm_of_subset has.distinct subset).perm_of_length_le
    simp [Entries.keys, sameLength]
  have isKind : other.1.plainKey? ∈ (Entries.keys entries).map plainKey? :=
    permuted.mem_iff.mpr (List.mem_map_of_mem (List.mem_map_of_mem member))
  obtain ⟨key, isKey, sameKind⟩ := List.mem_map.mp isKind
  obtain ⟨entry, isEntry, rfl⟩ := List.mem_map.mp isKey
  obtain ⟨matched, found, agree⟩ := matching entry isEntry
  have foundToo := Entries.find?_of_mem_of_tells (hasToo.tells (has.plain entry.1 isKey))
    hasToo.distinct member sameKind.symm
  rw [foundToo] at found
  cases found
  exact ⟨entry, isEntry, sameKind, agree⟩

end Made

/-! ## An equivalence -/

namespace IsWorld

variable {among : Value → Prop} {first second third : Value}

/-- Data match as items just if they are equal. -/
theorem agrees_iff (world : IsWorld among) (isFirst : among first) (isSecond : among second) :
    agrees first second = true ↔ equal first second = true := by
  rw [agrees, Bool.or_eq_true]
  constructor
  · rintro (same | isEqual)
    · obtain rfl := world.numbered first second isFirst isSecond same
      exact equal_self (world.data first isFirst)
    · exact isEqual
  · exact .inr

theorem equal_symm
    (world : IsWorld among) (isFirst : among first) (isSecond : among second)
    (isEqual : equal first second = true) : equal second first = true := by
  induction world.data first isFirst generalizing second with
  | plain isPlain =>
      have sameKind := (equal_iff_of_isPlainKey isPlain (world.data second isSecond)).mp isEqual
      have isPlainToo : second.IsPlainKey := by rwa [IsPlainKey, ← sameKind]
      exact (equal_iff_of_plain isPlainToo isPlain).mpr sameKind.symm
  | list eachItem inductionHypothesis =>
      obtain ⟨others, number, rfl, matching⟩ := equal_list_iff.mp isEqual
      obtain ⟨sameLength, each⟩ := List.forall₂_iff_get.mp matching
      apply equal_list_iff.mpr
      refine ⟨_, _, rfl, List.forall₂_iff_get.mpr ⟨sameLength.symm, ?_⟩⟩
      intro position isOther isItem
      have item := world.items _ _ isFirst _ (List.get_mem _ ⟨position, isItem⟩)
      have other := world.items _ _ isSecond _ (List.get_mem _ ⟨position, isOther⟩)
      rw [world.agrees_iff other item]
      exact inductionHypothesis _ (List.get_mem _ _) item other
        ((world.agrees_iff item other).mp (each position isItem isOther))
  | map has eachValue inductionHypothesis =>
      obtain ⟨others, number, rfl, sameLength, matching⟩ := equal_map_iff.mp isEqual
      have hasToo := (world.data _ isSecond).hasPlainKeys
      apply equal_map_iff.mpr
      refine ⟨_, _, rfl, sameLength.symm, fun other isOther => ?_⟩
      obtain ⟨entry, isEntry, sameKind, agree⟩ :=
        exists_entry_of_matching has hasToo sameLength matching isOther
      have isPlain := hasToo.plain other.1 (List.mem_map_of_mem isOther)
      have value := world.values _ _ isFirst entry isEntry
      have otherValue := world.values _ _ isSecond other isOther
      refine ⟨entry.2, ?_, ?_⟩
      · exact Entries.find?_of_mem_of_tells (has.tells isPlain) has.distinct isEntry sameKind
      · rw [world.agrees_iff otherValue value]
        exact inductionHypothesis entry isEntry value otherValue
          ((world.agrees_iff value otherValue).mp agree)

theorem equal_trans
    (world : IsWorld among) (isFirst : among first) (isSecond : among second)
    (isThird : among third) (isEqual : equal first second = true)
    (isEqualToo : equal second third = true) : equal first third = true := by
  induction world.data first isFirst generalizing second third with
  | plain isPlain =>
      have sameKind := (equal_iff_of_isPlainKey isPlain (world.data second isSecond)).mp isEqual
      have isPlainToo : second.IsPlainKey := by rwa [IsPlainKey, ← sameKind]
      have sameKindToo :=
        (equal_iff_of_isPlainKey isPlainToo (world.data third isThird)).mp isEqualToo
      exact (equal_iff_of_isPlainKey isPlain (world.data third isThird)).mpr
        (sameKind.trans sameKindToo)
  | list eachItem inductionHypothesis =>
      obtain ⟨others, number, rfl, matching⟩ := equal_list_iff.mp isEqual
      obtain ⟨thirds, last, rfl, matchingToo⟩ := equal_list_iff.mp isEqualToo
      obtain ⟨sameLength, each⟩ := List.forall₂_iff_get.mp matching
      obtain ⟨sameLengthToo, eachToo⟩ := List.forall₂_iff_get.mp matchingToo
      apply equal_list_iff.mpr
      refine ⟨_, _, rfl, List.forall₂_iff_get.mpr ⟨sameLength.trans sameLengthToo, ?_⟩⟩
      intro position isItem isThirdItem
      have isOther : position < others.length := sameLength ▸ isItem
      have item := world.items _ _ isFirst _ (List.get_mem _ ⟨position, isItem⟩)
      have other := world.items _ _ isSecond _ (List.get_mem _ ⟨position, isOther⟩)
      have thirdItem := world.items _ _ isThird _ (List.get_mem _ ⟨position, isThirdItem⟩)
      rw [world.agrees_iff item thirdItem]
      exact inductionHypothesis _ (List.get_mem _ _) item other thirdItem
        ((world.agrees_iff item other).mp (each position isItem isOther))
        ((world.agrees_iff other thirdItem).mp (eachToo position isOther isThirdItem))
  | map has eachValue inductionHypothesis =>
      obtain ⟨others, number, rfl, sameLength, matching⟩ := equal_map_iff.mp isEqual
      obtain ⟨thirds, last, rfl, sameLengthToo, matchingToo⟩ := equal_map_iff.mp isEqualToo
      have hasToo := (world.data _ isSecond).hasPlainKeys
      have hasThird := (world.data _ isThird).hasPlainKeys
      apply equal_map_iff.mpr
      refine ⟨_, _, rfl, sameLength.trans sameLengthToo, fun entry isEntry => ?_⟩
      have isPlain := has.plain entry.1 (List.mem_map_of_mem isEntry)
      obtain ⟨value, found, agree⟩ := matching entry isEntry
      obtain ⟨key, isOther, sameKind⟩ :=
        Entries.exists_mem_of_find? (hasToo.tells isPlain) found
      have isPlainToo := hasToo.plain key (List.mem_map_of_mem isOther)
      obtain ⟨last, foundToo, agreeToo⟩ := matchingToo (key, value) isOther
      obtain ⟨lastKey, isLast, sameKindToo⟩ :=
        Entries.exists_mem_of_find? (hasThird.tells isPlainToo) foundToo
      have entryValue := world.values _ _ isFirst entry isEntry
      have otherValue := world.values _ _ isSecond _ isOther
      have lastValue := world.values _ _ isThird _ isLast
      refine ⟨last, ?_, ?_⟩
      · exact Entries.find?_of_mem_of_tells (hasThird.tells isPlain) hasThird.distinct isLast
          (sameKindToo.trans sameKind)
      · rw [world.agrees_iff entryValue lastValue]
        exact inductionHypothesis entry isEntry entryValue otherValue lastValue
          ((world.agrees_iff entryValue otherValue).mp agree)
          ((world.agrees_iff otherValue lastValue).mp agreeToo)

/-- Maps are equal just if the entries of one can be put into an order in which they are equal
to those of the other one by one, key by key and value by value. -/
theorem equal_map_iff_perm
    {entries others : List (Value × Value)} {birth number : Nat} (world : IsWorld among)
    (isFirst : among (.map entries birth)) (isSecond : among (.map others number)) :
    equal (.map entries birth) (.map others number) = true ↔
      ∃ arranged, arranged.Perm others ∧
        List.Forall₂ (fun entry other =>
          equal entry.1 other.1 = true ∧ equal entry.2 other.2 = true) entries arranged := by
  have has := (world.data _ isFirst).hasPlainKeys
  have hasToo := (world.data _ isSecond).hasPlainKeys
  have alike {entry other : Value × Value} (isEntry : entry ∈ entries) (isOther : other ∈ others) :
      (equal entry.1 other.1 = true ↔ entry.1.plainKey? = other.1.plainKey?) ∧
        (agrees entry.2 other.2 = true ↔ equal entry.2 other.2 = true) :=
    ⟨equal_iff_of_plain (has.plain _ (List.mem_map_of_mem isEntry))
      (hasToo.plain _ (List.mem_map_of_mem isOther)),
      world.agrees_iff (world.values _ _ isFirst _ isEntry) (world.values _ _ isSecond _ isOther)⟩
  constructor
  · intro isEqual
    obtain ⟨_, _, isMap, sameLength, matching⟩ := equal_map_iff.mp isEqual
    obtain ⟨rfl, rfl⟩ := map.inj isMap
    have partner : ∀ entry ∈ entries, ∃ other ∈ others,
        entry.1.plainKey? = other.1.plainKey? ∧ agrees entry.2 other.2 = true := by
      intro entry isEntry
      obtain ⟨value, found, agree⟩ := matching entry isEntry
      obtain ⟨key, isOther, sameKind⟩ := Entries.exists_mem_of_find?
        (hasToo.tells (has.plain entry.1 (List.mem_map_of_mem isEntry))) found
      exact ⟨(key, value), isOther, sameKind.symm, agree⟩
    choose! pick isPicked sameKind agree using partner
    refine ⟨entries.map pick, ?_, ?_⟩
    · have sameKinds : ((entries.map pick).map fun other => other.1.plainKey?) =
          (Entries.keys entries).map plainKey? := by
        rw [Entries.keys, List.map_map, List.map_map]
        apply List.map_congr_left
        exact fun entry isEntry => (sameKind entry isEntry).symm
      have distinct : (entries.map pick).Nodup := List.Nodup.of_map _ (sameKinds ▸ has.distinct)
      have subset : entries.map pick ⊆ others := by
        intro other isOther
        obtain ⟨entry, isEntry, rfl⟩ := List.mem_map.mp isOther
        exact isPicked entry isEntry
      apply (List.subperm_of_subset distinct subset).perm_of_length_le
      exact Nat.le_of_eq (sameLength.symm.trans (List.length_map pick).symm)
    · rw [List.forall₂_map_right_iff, List.forall₂_same]
      intro entry isEntry
      have both := alike isEntry (isPicked entry isEntry)
      exact ⟨both.1.mpr (sameKind entry isEntry), both.2.mp (agree entry isEntry)⟩
  · rintro ⟨arranged, permuted, matching⟩
    obtain ⟨sameLength, each⟩ := List.forall₂_iff_get.mp matching
    apply equal_map_iff.mpr
    refine ⟨_, _, rfl, sameLength.trans permuted.length_eq, fun entry isEntry => ?_⟩
    obtain ⟨position, rfl⟩ := List.get_of_mem isEntry
    have isArranged : position.1 < arranged.length := sameLength ▸ position.2
    obtain ⟨sameKey, sameValue⟩ := each position.1 position.2 isArranged
    have isOther := permuted.mem_iff.mp (List.get_mem arranged ⟨position.1, isArranged⟩)
    have both := alike isEntry isOther
    refine ⟨_, ?_, both.2.mpr sameValue⟩
    exact Entries.find?_of_mem_of_tells (hasToo.tells (has.plain _ (List.mem_map_of_mem isEntry)))
      hasToo.distinct isOther (both.1.mp sameKey).symm

end IsWorld

end Value

end CueScript
