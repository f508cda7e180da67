import CueScript.Value.Map
import CueScript.Value.Order

/-!
# Values under other numbers

Two runs that do the same give out different numbers if one of them makes a list more.
A `Renaming` says which number of the second run stands for which number of the first one,
and `Value.rename` is a value of the first run with the numbers of the second.

Numbers only tell things apart.  So whatever is asked of a value, apart from which numbers
it has, is asked of the renamed value with the same answer.
-/

namespace CueScript

/-- Which numbers of a second run stand for those of a first one.  Stores and evaluators
have the same numbers in both. -/
structure Renaming where
  births : Nat → Nat
  scopes : Nat → Nat
  tables : Nat → Nat
  births_injective : Function.Injective births
  births_zero : births 0 = 0
  scopes_injective : Function.Injective scopes
  tables_injective : Function.Injective tables

namespace Value

mutual

/-- A value under other numbers. -/
def rename (ρ : Renaming) : Value → Value
  | .float number birth => .float number (ρ.births birth)
  | .list items birth => .list (renameItems ρ items) (ρ.births birth)
  | .vector items birth => .vector (renameItems ρ items) (ρ.births birth)
  | .quoted form => .quoted (rename ρ form)
  | .tuple items => .tuple (renameItems ρ items)
  | .map entries birth => .map (renameEntries ρ entries) (ρ.births birth)
  | .closure id name params rest body inside owner =>
      .closure (ρ.births id) name params rest (renameItems ρ body) (ρ.scopes inside) owner
  | .instanceTest id lineage => .instanceTest (ρ.births id) lineage
  | .event id origin members => .event (ρ.births id) origin (renameMembers ρ members)
  | .method id result => .method (ρ.births id) (rename ρ result)
  | .member receiver name => .member (rename ρ receiver) name
  | .scope id => .scope (ρ.scopes id)
  | value => value

/-- The same for the items of a list. -/
def renameItems (ρ : Renaming) : List Value → List Value
  | [] => []
  | item :: rest => rename ρ item :: renameItems ρ rest

/-- The same for the entries of a map. -/
def renameEntries (ρ : Renaming) : List (Value × Value) → List (Value × Value)
  | [] => []
  | entry :: rest => renameEntry ρ entry :: renameEntries ρ rest

/-- The same for an entry of a map. -/
def renameEntry (ρ : Renaming) : Value × Value → Value × Value
  | (key, value) => (rename ρ key, rename ρ value)

/-- The same for the members of an event. -/
def renameMembers (ρ : Renaming) : List (String × Value) → List (String × Value)
  | [] => []
  | first :: rest => renameMember ρ first :: renameMembers ρ rest

/-- The same for a member of an event. -/
def renameMember (ρ : Renaming) : String × Value → String × Value
  | (name, value) => (name, rename ρ value)

end

variable (ρ : Renaming)

@[simp]
theorem renameItems_eq (items : List Value) : renameItems ρ items = items.map (rename ρ) := by
  induction items with
  | nil => rfl
  | cons item rest inductionHypothesis => rw [renameItems, inductionHypothesis, List.map_cons]

@[simp]
theorem renameEntries_eq (entries : List (Value × Value)) :
    renameEntries ρ entries = entries.map (renameEntry ρ) := by
  induction entries with
  | nil => rfl
  | cons entry rest inductionHypothesis =>
      rw [renameEntries, inductionHypothesis, List.map_cons]

@[simp]
theorem renameMembers_eq (members : List (String × Value)) :
    renameMembers ρ members = members.map (renameMember ρ) := by
  induction members with
  | nil => rfl
  | cons first rest inductionHypothesis =>
      rw [renameMembers, inductionHypothesis, List.map_cons]

@[simp]
theorem renameEntry_mk (key value : Value) :
    renameEntry ρ (key, value) = (rename ρ key, rename ρ value) := rfl

@[simp]
theorem renameEntry_fst (entry : Value × Value) :
    (renameEntry ρ entry).1 = rename ρ entry.1 := by
  cases entry
  rfl

@[simp]
theorem renameEntry_snd (entry : Value × Value) :
    (renameEntry ρ entry).2 = rename ρ entry.2 := by
  cases entry
  rfl

@[simp]
theorem renameMember_mk (name : String) (value : Value) :
    renameMember ρ (name, value) = (name, rename ρ value) := rfl

/-! ## Each kind of value -/

@[simp] theorem rename_nil : rename ρ .nil = .nil := rfl

@[simp] theorem rename_bool (flag : Bool) : rename ρ (.bool flag) = .bool flag := rfl

@[simp] theorem rename_int (number : Int) : rename ρ (.int number) = .int number := rfl

@[simp]
theorem rename_float (number : Binary64) (birth : Nat) :
    rename ρ (.float number birth) = .float number (ρ.births birth) := rfl

@[simp] theorem rename_str (text : String) : rename ρ (.str text) = .str text := rfl

@[simp]
theorem rename_keyword (name : String) : rename ρ (.keyword name) = .keyword name := rfl

@[simp]
theorem rename_symbol (name : String) : rename ρ (.symbol name) = .symbol name := rfl

@[simp]
theorem rename_list (items : List Value) (birth : Nat) :
    rename ρ (.list items birth) = .list (items.map (rename ρ)) (ρ.births birth) := by
  rw [rename, renameItems_eq]

@[simp]
theorem rename_vector (items : List Value) (birth : Nat) :
    rename ρ (.vector items birth) = .vector (items.map (rename ρ)) (ρ.births birth) := by
  rw [rename, renameItems_eq]

@[simp]
theorem rename_quoted (form : Value) : rename ρ (.quoted form) = .quoted (rename ρ form) := rfl

@[simp]
theorem rename_tuple (items : List Value) :
    rename ρ (.tuple items) = .tuple (items.map (rename ρ)) := by
  rw [rename, renameItems_eq]

@[simp]
theorem rename_map (entries : List (Value × Value)) (birth : Nat) :
    rename ρ (.map entries birth) =
      .map (entries.map (renameEntry ρ)) (ρ.births birth) := by
  rw [rename, renameEntries_eq]

@[simp]
theorem rename_closure
    (id : Nat) (name : String) (params : List String) (rest : Option String)
    (body : List Value) (inside owner : Nat) :
    rename ρ (.closure id name params rest body inside owner) =
      .closure (ρ.births id) name params rest (body.map (rename ρ)) (ρ.scopes inside)
        owner := by
  rw [rename, renameItems_eq]

@[simp]
theorem rename_builtin (function : Builtin) :
    rename ρ (.builtin function) = .builtin function := rfl

@[simp]
theorem rename_instanceTest (id : Nat) (lineage : Lineage) :
    rename ρ (.instanceTest id lineage) = .instanceTest (ρ.births id) lineage := rfl

@[simp] theorem rename_store (id : Nat) : rename ρ (.store id) = .store id := rfl

@[simp]
theorem rename_event (id : Nat) (origin : EventClass) (members : List (String × Value)) :
    rename ρ (.event id origin members) =
      .event (ρ.births id) origin (members.map (renameMember ρ)) := by
  rw [rename, renameMembers_eq]

@[simp] theorem rename_kind (kind : EventKind) : rename ρ (.kind kind) = .kind kind := rfl

@[simp]
theorem rename_constant (name : String) : rename ρ (.constant name) = .constant name := rfl

@[simp] theorem rename_unset (id : Nat) : rename ρ (.unset id) = .unset id := rfl

@[simp]
theorem rename_method (id : Nat) (result : Value) :
    rename ρ (.method id result) = .method (ρ.births id) (rename ρ result) := rfl

@[simp]
theorem rename_member (receiver : Value) (name : String) :
    rename ρ (.member receiver name) = .member (rename ρ receiver) name := rfl

@[simp] theorem rename_scope (id : Nat) : rename ρ (.scope id) = .scope (ρ.scopes id) := rfl

@[simp] theorem rename_evaluator (id : Nat) : rename ρ (.evaluator id) = .evaluator id := rfl

@[simp]
theorem rename_settings (config : Config) : rename ρ (.settings config) = .settings config :=
  rfl

/-! ## Numbers -/

@[simp]
theorem births_beq (i j : Nat) : (ρ.births i == ρ.births j) = (i == j) := by
  by_cases same : i = j
  · subst same
    simp
  · have different : ρ.births i ≠ ρ.births j := fun equal => same (ρ.births_injective equal)
    rw [beq_eq_false_iff_ne.mpr different, beq_eq_false_iff_ne.mpr same]

@[simp]
theorem births_eq_zero (birth : Nat) : ρ.births birth = 0 ↔ birth = 0 := by
  constructor
  · intro zero
    exact ρ.births_injective (zero.trans ρ.births_zero.symm)
  · rintro rfl
    exact ρ.births_zero

@[simp]
theorem births_bne_zero (birth : Nat) : (ρ.births birth != 0) = (birth != 0) := by
  have same := births_beq ρ birth 0
  rw [ρ.births_zero] at same
  rw [bne, bne, same]

@[simp]
theorem scopes_beq (i j : Nat) : (ρ.scopes i == ρ.scopes j) = (i == j) := by
  by_cases same : i = j
  · subst same
    simp
  · have different : ρ.scopes i ≠ ρ.scopes j := fun equal => same (ρ.scopes_injective equal)
    rw [beq_eq_false_iff_ne.mpr different, beq_eq_false_iff_ne.mpr same]

@[simp]
theorem tables_beq (i j : Nat) : (ρ.tables i == ρ.tables j) = (i == j) := by
  by_cases same : i = j
  · subst same
    simp
  · have different : ρ.tables i ≠ ρ.tables j := fun equal => same (ρ.tables_injective equal)
    rw [beq_eq_false_iff_ne.mpr different, beq_eq_false_iff_ne.mpr same]

/-! ## What does not depend on numbers -/

@[simp]
theorem isTrue_rename (value : Value) : (rename ρ value).isTrue = value.isTrue := by
  cases value <;> simp [isTrue]

@[simp]
theorem isUnset_rename (id : Nat) (value : Value) :
    (rename ρ value).isUnset id = value.isUnset id := by
  cases value <;> simp [isUnset]

@[simp]
theorem isSymbol_rename (value : Value) : (rename ρ value).isSymbol = value.isSymbol := by
  cases value <;> simp [isSymbol]

@[simp]
theorem toInt_rename (value : Value) : (rename ρ value).toInt? = value.toInt? := by
  cases value <;> simp [toInt?]

@[simp]
theorem toText_rename (value : Value) : (rename ρ value).toText? = value.toText? := by
  cases value <;> simp [toText?]

@[simp]
theorem toNumeric_rename (value : Value) :
    (rename ρ value).toNumeric? = value.toNumeric? := by
  cases value <;> simp [toNumeric?]

@[simp]
theorem className_rename (value : Value) : (rename ρ value).className = value.className := by
  cases value with
  | event id origin members => cases origin <;> simp [className]
  | _ => simp [className]

@[simp]
theorem sequence_rename (value : Value) :
    (rename ρ value).sequence? = value.sequence?.map (List.map (rename ρ)) := by
  cases value <;> simp [sequence?]

@[simp]
theorem toTuple_rename (value : Value) :
    (rename ρ value).toTuple? = value.toTuple?.map (List.map (rename ρ)) := by
  cases value <;> simp [toTuple?]

@[simp]
theorem map_rename_ofChars (text : String) : (ofChars text).map (rename ρ) = ofChars text := by
  simp [ofChars, Function.comp_def]

mutual

@[simp]
theorem isKey_rename (value : Value) : (rename ρ value).isKey = value.isKey := by
  cases value with
  | quoted form =>
      rw [rename_quoted, isKey, isKey]
      exact isKey_rename form
  | tuple items =>
      rw [rename_tuple, isKey, isKey]
      exact areKeys_rename items
  | _ => simp [isKey]

@[simp]
theorem areKeys_rename (items : List Value) :
    areKeys (items.map (rename ρ)) = areKeys items := by
  cases items with
  | nil => rfl
  | cons item rest =>
      rw [List.map_cons, areKeys, areKeys, isKey_rename item, areKeys_rename rest]

end

/-! ## Equality -/

@[simp]
theorem sameBirth_rename (a b : Value) :
    sameBirth (rename ρ a) (rename ρ b) = sameBirth a b := by
  cases a with
  | float number birth =>
      cases b with
      | float other birth' => cases number <;> cases other <;> simp [sameBirth]
      | _ => cases number <;> simp [sameBirth]
  | list items birth => cases b <;> simp [sameBirth]
  | map entries birth => cases b <;> simp [sameBirth]
  | _ => simp [sameBirth]

theorem equalText_rename (a b : Value) :
    equalText (rename ρ a) (rename ρ b) = equalText a b := by
  cases a <;> cases b <;> simp [equalText, toText?]

@[simp]
theorem equalAtom_rename (a b : Value) :
    equalAtom (rename ρ a) (rename ρ b) = equalAtom a b := by
  unfold equalAtom
  rw [toNumeric_rename, toNumeric_rename, equalText_rename]
  cases a.toNumeric? with
  | some x => cases b.toNumeric? <;> rfl
  | none =>
      cases b.toNumeric? with
      | some y => rfl
      | none => cases a <;> cases b <;> simp

mutual

@[simp]
theorem sameKey_rename (stored probe : Value) :
    sameKey (rename ρ stored) (rename ρ probe) = sameKey stored probe := by
  have birth := sameBirth_rename ρ stored probe
  have atom := equalAtom_rename ρ stored probe
  cases stored with
  | str text =>
      rw [rename_str] at atom ⊢
      cases probe <;> simp only [sameKey, rename] <;> simpa using atom
  | tuple items =>
      rw [rename_tuple]
      cases probe with
      | tuple others => simpa [sameKey] using sameKeys_rename items others
      | quoted other => simpa [sameKey] using sameKeys_rename items [other]
      | _ => simp [sameKey]
  | quoted form =>
      rw [rename_quoted]
      cases probe with
      | tuple others =>
          rcases others with _ | ⟨other, _ | ⟨next, rest⟩⟩
          · simp [sameKey]
          · simpa [sameKey] using sameKey_rename form other
          · simp [sameKey]
      | quoted other => simpa [sameKey] using sameKey_rename form other
      | _ => simp [sameKey]
  | list items birth => simp [sameKey]
  | vector items birth => simp [sameKey]
  | map entries birth => simp [sameKey]
  | _ =>
      simp only [rename] at birth atom
      simp only [rename, sameKey, birth, atom]

@[simp]
theorem sameKeys_rename (items others : List Value) :
    sameKeys (items.map (rename ρ)) (others.map (rename ρ)) = sameKeys items others := by
  cases items with
  | nil => cases others <;> rfl
  | cons stored rest =>
      cases others with
      | nil => rfl
      | cons probe left =>
          rw [List.map_cons, List.map_cons, sameKeys, sameKeys, sameKey_rename stored probe,
            sameKeys_rename rest left]

end

/-! ## Entries -/

@[simp]
theorem find_rename (key : Value) (entries : ValueEntries) :
    Entries.find? sameKey (rename ρ key) (entries.map (renameEntry ρ)) =
      (Entries.find? sameKey key entries).map (rename ρ) := by
  induction entries with
  | nil => rfl
  | cons entry rest inductionHypothesis =>
      obtain ⟨stored, value⟩ := entry
      by_cases same : sameKey stored key = true
      · simp [Entries.find?, same]
      · simpa [Entries.find?, same] using inductionHypothesis

@[simp]
theorem has_rename (key : Value) (entries : ValueEntries) :
    Entries.has sameKey (rename ρ key) (entries.map (renameEntry ρ)) =
      Entries.has sameKey key entries := by
  simp [Entries.has, Function.comp_def]

@[simp]
theorem put_rename (key value : Value) (entries : ValueEntries) :
    Entries.put sameKey (rename ρ key) (rename ρ value) (entries.map (renameEntry ρ)) =
      (Entries.put sameKey key value entries).map (renameEntry ρ) := by
  induction entries with
  | nil => rfl
  | cons entry rest inductionHypothesis =>
      obtain ⟨stored, old⟩ := entry
      by_cases same : sameKey stored key = true
      · simp [Entries.put, same]
      · simpa [Entries.put, same] using inductionHypothesis

@[simp]
theorem erase_rename (key : Value) (entries : ValueEntries) :
    Entries.erase sameKey (rename ρ key) (entries.map (renameEntry ρ)) =
      (Entries.erase sameKey key entries).map (renameEntry ρ) := by
  induction entries with
  | nil => rfl
  | cons entry rest inductionHypothesis =>
      obtain ⟨stored, old⟩ := entry
      by_cases same : sameKey stored key = true
      · simp [Entries.erase, same]
      · simpa [Entries.erase, same] using inductionHypothesis

@[simp]
theorem putAll_rename (pairs entries : ValueEntries) :
    Entries.putAll sameKey (pairs.map (renameEntry ρ)) (entries.map (renameEntry ρ)) =
      (Entries.putAll sameKey pairs entries).map (renameEntry ρ) := by
  unfold Entries.putAll
  induction pairs generalizing entries with
  | nil => rfl
  | cons pair rest inductionHypothesis =>
      obtain ⟨key, value⟩ := pair
      simpa using inductionHypothesis (Entries.put sameKey key value entries)

@[simp]
theorem keys_rename (entries : ValueEntries) :
    Entries.keys (entries.map (renameEntry ρ)) = (Entries.keys entries).map (rename ρ) := by
  simp [Entries.keys, Function.comp_def]

@[simp]
theorem values_rename (entries : ValueEntries) :
    Entries.values (entries.map (renameEntry ρ)) = (Entries.values entries).map (rename ρ) := by
  simp [Entries.values, Function.comp_def]

@[simp]
theorem withKey_rename {α : Type} (key : Value) (result : α) :
    ValueEntries.withKey (rename ρ key) result = ValueEntries.withKey key result := by
  rw [ValueEntries.withKey, ValueEntries.withKey, isKey_rename]

theorem withKey_map {α β : Type} (f : α → β) (key : Value) (result : α) :
    ValueEntries.withKey key (f result) = (ValueEntries.withKey key result).map f := by
  unfold ValueEntries.withKey
  split <;> rfl

@[simp]
theorem get_rename (key : Value) (entries : ValueEntries) :
    ValueEntries.get? (entries.map (renameEntry ρ)) (rename ρ key) =
      (ValueEntries.get? entries key).map (Option.map (rename ρ)) := by
  rw [ValueEntries.get?, withKey_rename, find_rename, withKey_map]
  rfl

@[simp]
theorem has_entries_rename (key : Value) (entries : ValueEntries) :
    ValueEntries.has (entries.map (renameEntry ρ)) (rename ρ key) =
      ValueEntries.has entries key := by
  rw [ValueEntries.has, withKey_rename, has_rename]
  rfl

@[simp]
theorem put_entries_rename (key value : Value) (entries : ValueEntries) :
    ValueEntries.put (entries.map (renameEntry ρ)) (rename ρ key) (rename ρ value) =
      (ValueEntries.put entries key value).map (List.map (renameEntry ρ)) := by
  rw [ValueEntries.put, withKey_rename, put_rename, withKey_map]
  rfl

@[simp]
theorem taken_rename (key : Value) (entries : ValueEntries) :
    ValueEntries.taken? (entries.map (renameEntry ρ)) (rename ρ key) =
      (ValueEntries.taken? entries key).map (Option.map (rename ρ)) := by
  rw [ValueEntries.taken?, ValueEntries.taken?, List.isEmpty_map, get_rename]
  split <;> rfl

@[simp]
theorem erase_entries_rename (key : Value) (entries : ValueEntries) :
    ValueEntries.erase (entries.map (renameEntry ρ)) (rename ρ key) =
      (ValueEntries.erase entries key).map (List.map (renameEntry ρ)) := by
  rw [ValueEntries.erase, ValueEntries.erase, List.isEmpty_map, withKey_rename, erase_rename,
    withKey_map]
  split <;> rfl

@[simp]
theorem eraseAll_rename (keys : List Value) (entries : ValueEntries) :
    ValueEntries.eraseAll (entries.map (renameEntry ρ)) (keys.map (rename ρ)) =
      (ValueEntries.eraseAll entries keys).map (List.map (renameEntry ρ)) := by
  induction keys generalizing entries with
  | nil => rfl
  | cons key rest inductionHypothesis =>
      rw [List.map_cons, ValueEntries.eraseAll, ValueEntries.eraseAll, erase_entries_rename]
      cases ValueEntries.erase entries key with
      | error failure => rfl
      | ok left => exact inductionHypothesis left

@[simp]
theorem putAll_entries_rename (pairs entries : ValueEntries) :
    ValueEntries.putAll (entries.map (renameEntry ρ)) (pairs.map (renameEntry ρ)) =
      (ValueEntries.putAll entries pairs).map (List.map (renameEntry ρ)) := by
  induction pairs generalizing entries with
  | nil => rfl
  | cons pair rest inductionHypothesis =>
      obtain ⟨key, value⟩ := pair
      rw [List.map_cons, renameEntry_mk, ValueEntries.putAll, ValueEntries.putAll,
        put_entries_rename]
      cases ValueEntries.put entries key value with
      | error failure => rfl
      | ok built => exact inductionHypothesis built

/-! ## Comparing -/

mutual

@[simp]
theorem equal_rename (a b : Value) : equal (rename ρ a) (rename ρ b) = equal a b := by
  have atom := equalAtom_rename ρ a b
  cases a with
  | list items birth =>
      cases b with
      | list others other => simpa [equal] using matchItems_rename items others
      | _ => simp [equal]
  | tuple items =>
      rw [rename_tuple, equal, equal, toTuple_rename]
      cases b.toTuple? with
      | none => rfl
      | some others => exact matchItems_rename items others
  | vector items birth =>
      rw [rename_vector, equal, equal, toTuple_rename]
      cases b.toTuple? with
      | none => rfl
      | some others =>
          rcases others with _ | ⟨other, _ | ⟨next, rest⟩⟩
          · rfl
          · cases other with
            | list held birth' => simpa using matchItems_rename items held
            | _ => rfl
          · simp
  | quoted form =>
      rw [rename_quoted, equal, equal, toTuple_rename]
      cases b.toTuple? with
      | none => rfl
      | some others =>
          rcases others with _ | ⟨other, _ | ⟨next, rest⟩⟩
          · rfl
          · simp [equal_rename form other]
          · simp
  | map entries birth =>
      cases b with
      | map others other => simp [equal, matchEntries_rename entries others]
      | _ => simp [equal]
  | _ =>
      simp only [rename] at atom
      simp only [rename, equal, atom]

@[simp]
theorem matchItems_rename (items others : List Value) :
    matchItems (items.map (rename ρ)) (others.map (rename ρ)) = matchItems items others := by
  cases items with
  | nil => cases others <;> simp [matchItems]
  | cons item rest =>
      cases others with
      | nil => simp [matchItems]
      | cons other left =>
          rw [List.map_cons, List.map_cons, matchItems, matchItems, sameBirth_rename,
            equal_rename item other, matchItems_rename rest left]

@[simp]
theorem matchEntries_rename (entries others : List (Value × Value)) :
    matchEntries (entries.map (renameEntry ρ)) (others.map (renameEntry ρ)) =
      matchEntries entries others := by
  cases entries with
  | nil => simp [matchEntries]
  | cons entry rest =>
      rw [List.map_cons, matchEntries, matchEntries, matchEntry_rename entry others,
        matchEntries_rename rest others]

theorem matchEntry_rename (entry : Value × Value) (others : List (Value × Value)) :
    matchEntry (renameEntry ρ entry) (others.map (renameEntry ρ)) =
      matchEntry entry others := by
  cases entry with
  | mk key value =>
      rw [renameEntry_mk, matchEntry, matchEntry, find_rename]
      cases Entries.find? sameKey key others with
      | none => rfl
      | some other =>
          change (sameBirth (rename ρ value) (rename ρ other) ||
            equal (rename ρ value) (rename ρ other)) = _
          rw [sameBirth_rename, equal_rename value other]

end

@[simp]
theorem agrees_rename (a b : Value) : agrees (rename ρ a) (rename ρ b) = agrees a b := by
  rw [agrees, agrees, sameBirth_rename, equal_rename]

mutual

@[simp]
theorem compares_rename (relation : Comparison) (a b : Value) :
    compares relation (rename ρ a) (rename ρ b) = compares relation a b := by
  have numericA := toNumeric_rename ρ a
  have textA := toText_rename ρ a
  cases a with
  | list items birth =>
      cases b with
      | list others other => simpa [compares] using comparesItems_rename relation items others
      | _ => simp [compares]
  | tuple items =>
      rw [rename_tuple, compares, compares, toTuple_rename]
      cases b.toTuple? with
      | none => rfl
      | some others => exact comparesItems_rename relation items others
  | quoted form =>
      rw [rename_quoted, compares, compares, toTuple_rename]
      cases b.toTuple? with
      | none => rfl
      | some others =>
          cases others with
          | nil => rfl
          | cons other rest =>
              change (if (rename ρ form).agrees (rename ρ other) then _ else
                compares relation (rename ρ form) (rename ρ other)) = _
              rw [agrees_rename, compares_rename relation form other, List.length_map]
  | vector items birth =>
      rw [rename_vector, compares, compares, toTuple_rename]
      cases b.toTuple? with
      | none => rfl
      | some others =>
          cases others with
          | nil => rfl
          | cons other rest =>
              cases other with
              | list held birth' =>
                  simp [comparesItems_rename relation items held]
              | _ => rfl
  | _ =>
      simp only [rename] at numericA textA
      simp only [rename, compares, toNumeric_rename, toText_rename, numericA, textA]

@[simp]
theorem comparesItems_rename (relation : Comparison) (items others : List Value) :
    comparesItems relation (items.map (rename ρ)) (others.map (rename ρ)) =
      comparesItems relation items others := by
  cases items with
  | nil => cases others <;> rfl
  | cons item rest =>
      cases others with
      | nil => rfl
      | cons other left =>
          rw [List.map_cons, List.map_cons, comparesItems, comparesItems, agrees_rename,
            compares_rename relation item other, comparesItems_rename relation rest left]

end

end Value

end CueScript
