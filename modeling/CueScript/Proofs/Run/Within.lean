import CueScript.Heap

/-!
# Values within bounds

A value refers to stores, scopes and evaluators, and lists and maps carry numbers under
which a heap keeps what has become of them.  `Bounds` says which of all these may be
met, and which forms closures may be made of.  A value is within bounds if everything in
it is.

Bounds can also say what the list with a number may hold, and that closures, scopes and
evaluators are no values that are met; where they say nothing, they leave both open.
-/

namespace CueScript

/-- What values and forms may be met. -/
structure Bounds where
  stores : Nat → Prop
  scopes : Nat → Prop
  evaluators : Nat → Prop
  tables : Nat → Prop
  /-- The numbers of lists and maps. -/
  births : Nat → Prop
  /-- The numbers of lists that may lose items. -/
  losable : Nat → Prop
  /-- The forms that closures are made of. -/
  code : Value → Prop
  /-- What the list with a number may hold. -/
  contents : Nat → Value → Prop := fun _ _ => True
  contents_current : ∀ birth item holdings, contents birth item →
    contents birth (Value.current holdings item) := by exact fun _ _ _ _ => trivial
  /-- Whether closures, scopes and evaluators may be values. -/
  escapes : Prop := True

/-- Whether a list with a number may hold some items. -/
def Bounds.Lists (bounds : Bounds) (birth : Nat) (items : List Value) : Prop :=
  bounds.births birth ∧ ∀ item ∈ items, bounds.contents birth item

theorem Bounds.Lists.sublist
    {bounds : Bounds} {birth : Nat} {part items : List Value}
    (lists : bounds.Lists birth items) (sub : ∀ item ∈ part, item ∈ items) :
    bounds.Lists birth part :=
  ⟨lists.1, fun item member => lists.2 item (sub item member)⟩

theorem Bounds.Lists.current
    {bounds : Bounds} {birth : Nat} {items : List Value}
    (lists : bounds.Lists birth items) (holdings : Holdings) :
    bounds.Lists birth (Value.currentItems holdings items) := by
  induction items with
  | nil => exact lists
  | cons item rest inductionHypothesis =>
      have restLists := inductionHypothesis (lists.sublist fun _ => List.mem_cons_of_mem item)
      refine ⟨lists.1, fun each member => ?_⟩
      rcases List.mem_cons.mp member with rfl | member
      · exact bounds.contents_current birth item holdings (lists.2 item List.mem_cons_self)
      · exact restLists.2 each member

namespace Value

variable (bounds : Bounds)

mutual

/-- Whether everything in a value may be met. -/
def Within : Value → Prop
  | .list items birth => bounds.Lists birth items ∧ AllWithin items
  | .vector items birth => bounds.Lists birth items ∧ AllWithin items
  | .quoted form => Within form
  | .tuple items => AllWithin items
  | .map entries birth => bounds.births birth ∧ EntriesWithin entries
  | .closure _ _ _ _ body inside owner =>
      AllWithin body ∧ (∀ form ∈ body, bounds.code form) ∧
        bounds.scopes inside ∧ bounds.evaluators owner ∧ bounds.escapes
  | .store id => bounds.stores id
  | .event _ _ members => MembersWithin members
  | .method _ result => Within result
  | .member receiver _ => Within receiver
  | .scope id => bounds.scopes id ∧ bounds.escapes
  | .evaluator id => bounds.evaluators id ∧ bounds.escapes
  | _ => True

/-- The same for the items of a list. -/
def AllWithin : List Value → Prop
  | [] => True
  | item :: rest => Within item ∧ AllWithin rest

/-- The same for the entries of a map. -/
def EntriesWithin : List (Value × Value) → Prop
  | [] => True
  | entry :: rest => EntryWithin entry ∧ EntriesWithin rest

/-- The same for an entry of a map. -/
def EntryWithin : Value × Value → Prop
  | (key, value) => Within key ∧ Within value

/-- The same for the members of an event. -/
def MembersWithin : List (String × Value) → Prop
  | [] => True
  | first :: rest => MemberWithin first ∧ MembersWithin rest

/-- The same for a member of an event. -/
def MemberWithin : String × Value → Prop
  | (_, value) => Within value

end

variable {bounds : Bounds}

theorem allWithin_iff {items : List Value} :
    AllWithin bounds items ↔ ∀ item ∈ items, Within bounds item := by
  induction items with
  | nil => simp [AllWithin]
  | cons item rest inductionHypothesis => simp [AllWithin, inductionHypothesis]

theorem entriesWithin_iff {entries : List (Value × Value)} :
    EntriesWithin bounds entries ↔
      ∀ entry ∈ entries, Within bounds entry.1 ∧ Within bounds entry.2 := by
  induction entries with
  | nil => simp [EntriesWithin]
  | cons entry rest inductionHypothesis =>
      obtain ⟨key, value⟩ := entry
      simp only [EntriesWithin, EntryWithin, inductionHypothesis, List.mem_cons,
        forall_eq_or_imp]

/-! ## Parts of values -/

theorem allWithin_append {left right : List Value} :
    AllWithin bounds (left ++ right) ↔ AllWithin bounds left ∧ AllWithin bounds right := by
  simp only [allWithin_iff, List.mem_append, or_imp, forall_and]

theorem AllWithin.sublist
    {part items : List Value}
    (within : AllWithin bounds items)
    (sub : ∀ item ∈ part, item ∈ items) :
    AllWithin bounds part :=
  allWithin_iff.mpr fun item member => allWithin_iff.mp within item (sub item member)

theorem AllWithin.drop
    {items : List Value} (count : Nat)
    (within : AllWithin bounds items) :
    AllWithin bounds (items.drop count) :=
  within.sublist fun _ member => List.mem_of_mem_drop member

theorem AllWithin.tail
    {items : List Value}
    (within : AllWithin bounds items) :
    AllWithin bounds items.tail :=
  within.sublist fun _ member => List.mem_of_mem_tail member

theorem AllWithin.reverse
    {items : List Value}
    (within : AllWithin bounds items) :
    AllWithin bounds items.reverse :=
  within.sublist fun _ member => List.mem_reverse.mp member

theorem within_of_sequence
    {value : Value} {items : List Value}
    (within : Within bounds value)
    (isSequence : value.sequence? = some items) :
    AllWithin bounds items := by
  unfold sequence? at isSequence
  split at isSequence <;> cases isSequence <;> exact within.2

theorem within_of_toTuple
    {value : Value} {items : List Value}
    (within : Within bounds value)
    (isTuple : value.toTuple? = some items) :
    AllWithin bounds items := by
  unfold toTuple? at isTuple
  split at isTuple
  · cases isTuple
    exact within
  · cases isTuple
    exact ⟨within, trivial⟩
  · cases isTuple
    exact ⟨within, trivial⟩
  · cases isTuple

theorem allWithin_ofChars (text : String) : AllWithin bounds (ofChars text) := by
  rw [allWithin_iff]
  intro item member
  obtain ⟨c, -, rfl⟩ := List.mem_map.mp member
  exact trivial

theorem within_getD
    {value : Option Value} {default : Value}
    (within : ∀ found, value = some found → Within bounds found)
    (defaultWithin : Within bounds default) :
    Within bounds (value.getD default) := by
  cases value with
  | none => exact defaultWithin
  | some found => exact within found rfl

/-! ## Entries -/

theorem within_of_find
    {same : Value → Value → Bool} {probe found : Value} {entries : ValueEntries}
    (within : EntriesWithin bounds entries)
    (isFound : Entries.find? same probe entries = some found) :
    Within bounds found := by
  induction entries with
  | nil => cases isFound
  | cons entry rest inductionHypothesis =>
      obtain ⟨key, value⟩ := entry
      obtain ⟨here, later⟩ := within
      rw [Entries.find?] at isFound
      split at isFound
      · cases isFound
        exact here.2
      · exact inductionHypothesis later isFound

theorem entriesWithin_put
    {same : Value → Value → Bool} {key value : Value} {entries : ValueEntries}
    (within : EntriesWithin bounds entries)
    (keyWithin : Within bounds key)
    (valueWithin : Within bounds value) :
    EntriesWithin bounds (Entries.put same key value entries) := by
  induction entries with
  | nil => exact ⟨⟨keyWithin, valueWithin⟩, trivial⟩
  | cons entry rest inductionHypothesis =>
      obtain ⟨stored, old⟩ := entry
      obtain ⟨here, later⟩ := within
      rw [Entries.put]
      split
      · exact ⟨⟨here.1, valueWithin⟩, later⟩
      · exact ⟨here, inductionHypothesis later⟩

theorem entriesWithin_putAll
    {same : Value → Value → Bool} {pairs entries : ValueEntries}
    (within : EntriesWithin bounds entries)
    (pairsWithin : EntriesWithin bounds pairs) :
    EntriesWithin bounds (Entries.putAll same pairs entries) := by
  unfold Entries.putAll
  induction pairs generalizing entries with
  | nil => exact within
  | cons pair rest inductionHypothesis =>
      obtain ⟨key, value⟩ := pair
      obtain ⟨here, later⟩ := pairsWithin
      exact inductionHypothesis (entriesWithin_put within here.1 here.2) later

theorem entriesWithin_erase
    {same : Value → Value → Bool} {probe : Value} {entries : ValueEntries}
    (within : EntriesWithin bounds entries) :
    EntriesWithin bounds (Entries.erase same probe entries) := by
  induction entries with
  | nil => exact within
  | cons entry rest inductionHypothesis =>
      obtain ⟨here, later⟩ := within
      rw [Entries.erase]
      split
      · exact later
      · exact ⟨here, inductionHypothesis later⟩

theorem allWithin_keys
    {entries : ValueEntries}
    (within : EntriesWithin bounds entries) :
    AllWithin bounds (Entries.keys entries) := by
  rw [allWithin_iff]
  intro item member
  obtain ⟨entry, isEntry, rfl⟩ := List.mem_map.mp member
  exact (entriesWithin_iff.mp within entry isEntry).1

theorem allWithin_values
    {entries : ValueEntries}
    (within : EntriesWithin bounds entries) :
    AllWithin bounds (Entries.values entries) := by
  rw [allWithin_iff]
  intro item member
  obtain ⟨entry, isEntry, rfl⟩ := List.mem_map.mp member
  exact (entriesWithin_iff.mp within entry isEntry).2

theorem within_of_get
    {key : Value} {entries : ValueEntries} {found : Option Value}
    (within : EntriesWithin bounds entries)
    (isFound : ValueEntries.get? entries key = .ok found) :
    ∀ value, found = some value → Within bounds value := by
  unfold ValueEntries.get? ValueEntries.withKey at isFound
  split at isFound
  · cases isFound
    exact fun value same => within_of_find within same
  · cases isFound

theorem within_of_taken
    {key : Value} {entries : ValueEntries} {found : Option Value}
    (within : EntriesWithin bounds entries)
    (isFound : ValueEntries.taken? entries key = .ok found) :
    ∀ value, found = some value → Within bounds value := by
  unfold ValueEntries.taken? at isFound
  split at isFound
  · cases isFound
    intro value same
    cases same
  · exact within_of_get within isFound

theorem entriesWithin_of_put
    {key value : Value} {entries revised : ValueEntries}
    (within : EntriesWithin bounds entries)
    (keyWithin : Within bounds key)
    (valueWithin : Within bounds value)
    (isRevised : ValueEntries.put entries key value = .ok revised) :
    EntriesWithin bounds revised := by
  unfold ValueEntries.put ValueEntries.withKey at isRevised
  split at isRevised
  · cases isRevised
    exact entriesWithin_put within keyWithin valueWithin
  · cases isRevised

theorem entriesWithin_of_erase
    {key : Value} {entries revised : ValueEntries}
    (within : EntriesWithin bounds entries)
    (isRevised : ValueEntries.erase entries key = .ok revised) :
    EntriesWithin bounds revised := by
  unfold ValueEntries.erase ValueEntries.withKey at isRevised
  split at isRevised
  · cases isRevised
    exact trivial
  · split at isRevised
    · cases isRevised
      exact entriesWithin_erase within
    · cases isRevised

theorem entriesWithin_of_eraseAll
    {keys : List Value} {entries revised : ValueEntries}
    (within : EntriesWithin bounds entries)
    (isRevised : ValueEntries.eraseAll entries keys = .ok revised) :
    EntriesWithin bounds revised := by
  induction keys generalizing entries with
  | nil =>
      cases isRevised
      exact within
  | cons key rest inductionHypothesis =>
      cases erased : ValueEntries.erase entries key with
      | error failure => simp [ValueEntries.eraseAll, erased, bind, Except.bind] at isRevised
      | ok left =>
          simp only [ValueEntries.eraseAll, erased, bind, Except.bind] at isRevised
          exact inductionHypothesis (entriesWithin_of_erase within erased) isRevised

theorem entriesWithin_of_putAll
    {pairs entries revised : ValueEntries}
    (within : EntriesWithin bounds entries)
    (pairsWithin : EntriesWithin bounds pairs)
    (isRevised : ValueEntries.putAll entries pairs = .ok revised) :
    EntriesWithin bounds revised := by
  induction pairs generalizing entries with
  | nil =>
      cases isRevised
      exact within
  | cons pair rest inductionHypothesis =>
      obtain ⟨key, value⟩ := pair
      obtain ⟨here, later⟩ := pairsWithin
      cases stored : ValueEntries.put entries key value with
      | error failure => simp [ValueEntries.putAll, stored, bind, Except.bind] at isRevised
      | ok built =>
          simp only [ValueEntries.putAll, stored, bind, Except.bind] at isRevised
          exact inductionHypothesis (entriesWithin_of_put within here.1 here.2 stored) later
            isRevised

end Value

/-! ## Wider bounds -/

/-- Whether all values within some bounds are within others. -/
structure Bounds.Narrower (narrow wide : Bounds) : Prop where
  stores : ∀ id, narrow.stores id → wide.stores id
  scopes : ∀ id, narrow.scopes id → wide.scopes id
  evaluators : ∀ id, narrow.evaluators id → wide.evaluators id
  births : ∀ birth, narrow.births birth → wide.births birth
  code : ∀ form, narrow.code form → wide.code form
  contents : ∀ birth item, narrow.contents birth item → wide.contents birth item
  escapes : narrow.escapes → wide.escapes

theorem Bounds.Narrower.lists
    {narrow wide : Bounds} (narrower : narrow.Narrower wide) {birth : Nat} {items : List Value}
    (lists : narrow.Lists birth items) :
    wide.Lists birth items :=
  ⟨narrower.births birth lists.1, fun item member =>
    narrower.contents birth item (lists.2 item member)⟩

namespace Value

variable {narrow wide : Bounds}

mutual

theorem within_widen
    (narrower : narrow.Narrower wide) (value : Value)
    (within : Within narrow value) :
    Within wide value := by
  cases value with
  | list items birth =>
      exact ⟨narrower.lists within.1, allWithin_widen narrower items within.2⟩
  | vector items birth =>
      exact ⟨narrower.lists within.1, allWithin_widen narrower items within.2⟩
  | quoted form => exact within_widen narrower form within
  | tuple items => exact allWithin_widen narrower items within
  | map entries birth =>
      exact ⟨narrower.births birth within.1, entriesWithin_widen narrower entries within.2⟩
  | closure id name params rest body inside owner =>
      obtain ⟨bodyWithin, bodyCode, scopeKnown, ownerKnown, escapes⟩ := within
      exact ⟨allWithin_widen narrower body bodyWithin,
        fun form member => narrower.code form (bodyCode form member),
        narrower.scopes inside scopeKnown, narrower.evaluators owner ownerKnown,
        narrower.escapes escapes⟩
  | store id => exact narrower.stores id within
  | event id origin members => exact membersWithin_widen narrower members within
  | method id result => exact within_widen narrower result within
  | member receiver name => exact within_widen narrower receiver within
  | scope id => exact ⟨narrower.scopes id within.1, narrower.escapes within.2⟩
  | evaluator id => exact ⟨narrower.evaluators id within.1, narrower.escapes within.2⟩
  | _ => exact trivial

theorem allWithin_widen
    (narrower : narrow.Narrower wide) (items : List Value)
    (within : AllWithin narrow items) :
    AllWithin wide items := by
  cases items with
  | nil => exact trivial
  | cons item rest =>
      exact ⟨within_widen narrower item within.1, allWithin_widen narrower rest within.2⟩

theorem entriesWithin_widen
    (narrower : narrow.Narrower wide) (entries : List (Value × Value))
    (within : EntriesWithin narrow entries) :
    EntriesWithin wide entries := by
  cases entries with
  | nil => exact trivial
  | cons entry rest =>
      exact ⟨entryWithin_widen narrower entry within.1,
        entriesWithin_widen narrower rest within.2⟩

theorem entryWithin_widen
    (narrower : narrow.Narrower wide) (entry : Value × Value)
    (within : EntryWithin narrow entry) :
    EntryWithin wide entry := by
  cases entry with
  | mk key value =>
      exact ⟨within_widen narrower key within.1, within_widen narrower value within.2⟩

theorem membersWithin_widen
    (narrower : narrow.Narrower wide) (members : List (String × Value))
    (within : MembersWithin narrow members) :
    MembersWithin wide members := by
  cases members with
  | nil => exact trivial
  | cons first rest =>
      exact ⟨memberWithin_widen narrower first within.1,
        membersWithin_widen narrower rest within.2⟩

theorem memberWithin_widen
    (narrower : narrow.Narrower wide) (first : String × Value)
    (within : MemberWithin narrow first) :
    MemberWithin wide first := by
  cases first with
  | mk name value => exact within_widen narrower value within

end

end Value

/-! ## Values as they are now -/

/-- What lists and maps within the bounds hold now is within the bounds. -/
structure Holdings.Within (bounds : Bounds) (holdings : Holdings) : Prop where
  items : ∀ birth held, bounds.births birth → holdings.items birth = some held →
    bounds.Lists birth held ∧ Value.AllWithin bounds held
  entries : ∀ birth held, bounds.births birth → holdings.entries birth = some held →
    Value.EntriesWithin bounds held

namespace Value

variable {bounds : Bounds} {holdings : Holdings}

mutual

theorem within_current
    (held : holdings.Within bounds) (value : Value)
    (within : Within bounds value) :
    Within bounds (current holdings value) := by
  cases value with
  | list items birth =>
      obtain ⟨lists, itemsWithin⟩ := within
      rw [current]
      split
      · exact held.items birth _ lists.1 ‹_›
      · exact ⟨lists.current holdings, allWithin_current held items itemsWithin⟩
  | vector items birth =>
      obtain ⟨lists, itemsWithin⟩ := within
      rw [current]
      split
      · exact held.items birth _ lists.1 ‹_›
      · exact ⟨lists.current holdings, allWithin_current held items itemsWithin⟩
  | map entries birth =>
      obtain ⟨known, entriesWithin⟩ := within
      rw [current]
      split
      · exact ⟨known, held.entries birth _ known ‹_›⟩
      · exact ⟨known, entriesWithin_current held entries entriesWithin⟩
  | quoted form => exact within_current held form within
  | tuple items => exact allWithin_current held items within
  | event id origin members => exact membersWithin_current held members within
  | method id result => exact within_current held result within
  | member receiver name => exact within_current held receiver within
  | _ => exact within

theorem allWithin_current
    (held : holdings.Within bounds) (items : List Value)
    (within : AllWithin bounds items) :
    AllWithin bounds (currentItems holdings items) := by
  cases items with
  | nil => exact within
  | cons item rest =>
      exact ⟨within_current held item within.1, allWithin_current held rest within.2⟩

theorem entriesWithin_current
    (held : holdings.Within bounds) (entries : List (Value × Value))
    (within : EntriesWithin bounds entries) :
    EntriesWithin bounds (currentEntries holdings entries) := by
  cases entries with
  | nil => exact within
  | cons entry rest =>
      exact ⟨entryWithin_current held entry within.1,
        entriesWithin_current held rest within.2⟩

theorem entryWithin_current
    (held : holdings.Within bounds) (entry : Value × Value)
    (within : EntryWithin bounds entry) :
    EntryWithin bounds (currentEntry holdings entry) := by
  cases entry with
  | mk key value =>
      exact ⟨within_current held key within.1, within_current held value within.2⟩

theorem membersWithin_current
    (held : holdings.Within bounds) (members : List (String × Value))
    (within : MembersWithin bounds members) :
    MembersWithin bounds (currentMembers holdings members) := by
  cases members with
  | nil => exact within
  | cons first rest =>
      exact ⟨memberWithin_current held first within.1,
        membersWithin_current held rest within.2⟩

theorem memberWithin_current
    (held : holdings.Within bounds) (first : String × Value)
    (within : MemberWithin bounds first) :
    MemberWithin bounds (currentMember holdings first) := by
  cases first with
  | mk name value => exact within_current held value within

end

end Value

end CueScript
