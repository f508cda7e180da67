import CueScript.Builtin.Call
import CueScript.Builtin.Member
import CueScript.Proofs.Twin.Access

/-!
# Built-in functions in twin runs

Built-in functions and the operations of values end alike in twin runs, if what they call
does.
-/

namespace CueScript

open Value

variable {pairing : Pairing} {call other : Caller}

namespace Arithmetic

/-! ## Arithmetic -/

theorem twin_operands (a b : Value) :
    Twin pairing (fun result => result) (operands a b)
      (operands (a.rename pairing.numbers) (b.rename pairing.numbers)) := by
  unfold operands
  rw [toNumeric_rename, toNumeric_rename]
  split
  · exact .pure rfl
  · exact .fail

theorem twin_toDouble (x : Numeric) :
    Twin pairing (fun result => result) (toDouble x) (toDouble x) := by
  unfold toDouble
  split
  · exact .pure rfl
  · exact .fail

theorem twin_combine
    (exact' : Int → Int → Int) (rounded : Binary64 → Binary64 → Binary64) (a b : Value) :
    Twin pairing (rename pairing.numbers) (combine exact' rounded a b)
      (combine exact' rounded (a.rename pairing.numbers) (b.rename pairing.numbers)) := by
  refine .bind (twin_operands a b) fun numbers => ?_
  split
  · exact .pure rfl
  · exact .bind (twin_toDouble _) fun _ => .bind (twin_toDouble _) fun _ => .newFloat _

theorem twin_negate (a : Value) :
    Twin pairing (rename pairing.numbers) (negate a) (negate (a.rename pairing.numbers)) := by
  unfold negate
  rw [toNumeric_rename]
  split
  · exact .pure rfl
  · exact .newFloat _
  · exact .fail

theorem twin_absolute (a : Value) :
    Twin pairing (rename pairing.numbers) (absolute a)
      (absolute (a.rename pairing.numbers)) := by
  unfold absolute
  rw [toNumeric_rename]
  split
  · exact .pure rfl
  · exact .newFloat _
  · exact .fail

theorem twin_repetitions (length : Nat) (count : Int) (tooLong : Failure) :
    Twin pairing (fun result => result) (repetitions length count tooLong)
      (repetitions length count tooLong) := by
  unfold repetitions
  split
  · exact .fail
  · split
    · exact .fail
    · split
      · exact .fail
      · exact .pure rfl

theorem map_repeatItems {α β : Type} (f : α → β) (items : List α) (count : Nat) :
    repeatItems (items.map f) count = (repeatItems items count).map f := by
  rw [repeatItems, repeatItems, List.map_flatten, List.map_replicate]

theorem twin_repeated (value : Value) (count : Int) :
    Twin pairing (rename pairing.numbers)
      (match value.toText?, value.toTuple?, value with
        | some text, _, _ => do
            let times ← repetitions text.length count .tooLarge
            return .str (String.ofList (repeatItems text.toList times))
        | none, some items, _ => do
            let times ← repetitions items.length count .outOfMemory
            return .tuple (repeatItems items times)
        | none, none, .list items _ => do
            let times ← repetitions items.length count .outOfMemory
            Action.newList (repeatItems items times)
        | none, none, _ => Action.fail .wrongType)
      (match (value.rename pairing.numbers).toText?, (value.rename pairing.numbers).toTuple?,
          value.rename pairing.numbers with
        | some text, _, _ => do
            let times ← repetitions text.length count .tooLarge
            return .str (String.ofList (repeatItems text.toList times))
        | none, some items, _ => do
            let times ← repetitions items.length count .outOfMemory
            return .tuple (repeatItems items times)
        | none, none, .list items _ => do
            let times ← repetitions items.length count .outOfMemory
            Action.newList (repeatItems items times)
        | none, none, _ => Action.fail .wrongType) := by
  have texts (text : String) : Twin pairing (rename pairing.numbers)
      (repetitions text.length count .tooLarge >>= fun times =>
        Pure.pure (.str (String.ofList (repeatItems text.toList times))))
      (repetitions text.length count .tooLarge >>= fun times =>
        Pure.pure (.str (String.ofList (repeatItems text.toList times)))) :=
    .bind (twin_repetitions _ _ _) fun _ => .pure rfl
  have tuples (items : List Value) : Twin pairing (rename pairing.numbers)
      (repetitions items.length count .outOfMemory >>= fun times =>
        Pure.pure (.tuple (repeatItems items times)))
      (repetitions (items.map (rename pairing.numbers)).length count .outOfMemory >>=
        fun times => Pure.pure
          (.tuple (repeatItems (items.map (rename pairing.numbers)) times))) := by
    rw [List.length_map]
    exact .bind (twin_repetitions _ _ _) fun _ => .pure (by rw [map_repeatItems, rename_tuple])
  have lists (items : List Value) : Twin pairing (rename pairing.numbers)
      (repetitions items.length count .outOfMemory >>= fun times =>
        Action.newList (repeatItems items times))
      (repetitions (items.map (rename pairing.numbers)).length count .outOfMemory >>=
        fun times => Action.newList
          (repeatItems (items.map (rename pairing.numbers)) times)) := by
    rw [List.length_map]
    refine .bind (twin_repetitions _ _ _) fun _ => ?_
    rw [map_repeatItems]
    exact .newList _
  cases value with
  | str text => exact texts text
  | keyword text => exact texts text
  | symbol text => exact texts text
  | tuple items =>
      rw [rename_tuple]
      exact tuples items
  | vector items birth =>
      have found := tuples [.list items birth]
      rw [List.map_singleton, rename_list] at found
      rw [rename_vector]
      exact found
  | quoted form => exact tuples [form]
  | list items birth =>
      rw [rename_list]
      exact lists items
  | _ => exact .fail

theorem twin_multiply (a b : Value) :
    Twin pairing (rename pairing.numbers) (multiply a b)
      (multiply (a.rename pairing.numbers) (b.rename pairing.numbers)) := by
  unfold multiply
  rw [toInt_rename, toInt_rename, toNumeric_rename, toNumeric_rename]
  split
  · exact .pure rfl
  · split
    · exact twin_combine _ _ a b
    · exact twin_repeated b _
  · split
    · exact twin_combine _ _ a b
    · exact twin_repeated a _
  · exact twin_combine _ _ a b

theorem twin_quotient (a b : Value) :
    Twin pairing (fun result => result) (quotient a b)
      (quotient (a.rename pairing.numbers) (b.rename pairing.numbers)) := by
  refine .bind (twin_operands a b) fun numbers => ?_
  split
  · unfold quotientOfInts
    split
    · exact .fail
    · split
      · exact .fail
      · exact .pure rfl
  · refine .bind (twin_toDouble _) fun _ => .bind (twin_toDouble _) fun _ => ?_
    split
    · exact .fail
    · exact .pure rfl

theorem twin_divide (a b : Value) :
    Twin pairing (rename pairing.numbers) (divide a b)
      (divide (a.rename pairing.numbers) (b.rename pairing.numbers)) :=
  .bind (twin_quotient a b) fun _ => .newFloat _

theorem twin_integerPart (x : Binary64) :
    Twin pairing (rename pairing.numbers) (integerPart x) (integerPart x) := by
  unfold integerPart
  split
  · exact .pure rfl
  · exact .fail
  · exact .fail

theorem twin_fillTemplate
    (template : Value) (text : String) (arguments : Template.Arguments) :
    Twin pairing (rename pairing.numbers) (fillTemplate template text arguments)
      (fillTemplate (template.rename pairing.numbers) text
        (arguments.rename pairing.numbers)) := by
  refine .bind (.readingSame fun _ _ like => ?_) fun filled => ?_
  · exact Template.fill_rename pairing.numbers like.texts text arguments
  · split
    · exact .pure rfl
    · exact .pure rfl

theorem twin_modulo (a b : Value) :
    Twin pairing (rename pairing.numbers) (modulo a b)
      (modulo (a.rename pairing.numbers) (b.rename pairing.numbers)) := by
  unfold modulo
  rw [toText_rename]
  split
  · rw [Template.ofValue_rename]
    exact twin_fillTemplate a _ (.ofValue b)
  · refine .bind (twin_operands a b) fun numbers => ?_
    split
    · split
      · exact .fail
      · exact .pure rfl
    · refine .bind (twin_toDouble _) fun _ => .bind (twin_toDouble _) fun _ => ?_
      split
      · exact .fail
      · exact .newFloat _

theorem twin_add (a b : Value) :
    Twin pairing (rename pairing.numbers) (add a b)
      (add (a.rename pairing.numbers) (b.rename pairing.numbers)) := twin_combine _ _ a b

theorem twin_subtract (a b : Value) :
    Twin pairing (rename pairing.numbers) (subtract a b)
      (subtract (a.rename pairing.numbers) (b.rename pairing.numbers)) := twin_combine _ _ a b

/-! ## Chains of values -/

theorem twin_chain
    {operation : Value → Value → Action Value}
    (operations : ∀ a b, Twin pairing (rename pairing.numbers) (operation a b)
      (operation (a.rename pairing.numbers) (b.rename pairing.numbers)))
    (result : Value) (values : List Value) :
    Twin pairing (rename pairing.numbers) (chain operation result values)
      (chain operation (result.rename pairing.numbers)
        (values.map (rename pairing.numbers))) := by
  induction values generalizing result with
  | nil => exact .pure rfl
  | cons value rest inductionHypothesis =>
      exact .bind (operations result value) fun next => inductionHypothesis next

theorem twin_eachHolds
    {relation : Value → Value → Action Bool}
    (relates : ∀ a b, Twin pairing (fun result => result) (relation a b)
      (relation (a.rename pairing.numbers) (b.rename pairing.numbers)))
    (previous : Value) (values : List Value) :
    Twin pairing (fun result => result) (eachHolds relation previous values)
      (eachHolds relation (previous.rename pairing.numbers)
        (values.map (rename pairing.numbers))) := by
  induction values generalizing previous with
  | nil => exact .pure rfl
  | cons value rest inductionHypothesis =>
      refine .bind (relates previous value) fun holds => ?_
      split
      · exact inductionHypothesis value
      · exact .pure rfl

/-- Whether values are in an order relation. -/
theorem twin_compares (relation : Comparison) (a b : Value) :
    Twin pairing (fun result => result) (Action.ofExcept (Value.compares relation a b))
      (Action.ofExcept (Value.compares relation (a.rename pairing.numbers)
        (b.rename pairing.numbers))) := by
  rw [compares_rename]
  exact .readingSame fun _ _ _ => rfl

theorem twin_extreme (relation : Comparison) (best : Value) (values : List Value) :
    Twin pairing (rename pairing.numbers) (extreme relation best values)
      (extreme relation (best.rename pairing.numbers)
        (values.map (rename pairing.numbers))) := by
  induction values generalizing best with
  | nil => exact .pure rfl
  | cons value rest inductionHypothesis =>
      refine .bind (twin_compares relation value best) fun holds => ?_
      split
      · exact inductionHypothesis value
      · exact inductionHypothesis best

end Arithmetic

/-! ## Events -/

namespace Event

theorem putMember_rename
    (ρ : Renaming) (name : String) (value : Value) (members : List (String × Value)) :
    Entries.put (· == ·) name (value.rename ρ) (members.map (renameMember ρ)) =
      (Entries.put (· == ·) name value members).map (renameMember ρ) := by
  induction members with
  | nil => rfl
  | cons first rest inductionHypothesis =>
      obtain ⟨key, old⟩ := first
      by_cases same : (key == name) = true
      · simp [Entries.put, same]
      · simpa [Entries.put, same] using inductionHypothesis

theorem eraseMember_rename
    (ρ : Renaming) (name : String) (members : List (String × Value)) :
    Entries.erase (· == ·) name (members.map (renameMember ρ)) =
      (Entries.erase (· == ·) name members).map (renameMember ρ) := by
  induction members with
  | nil => rfl
  | cons first rest inductionHypothesis =>
      obtain ⟨key, old⟩ := first
      by_cases same : (key == name) = true
      · simp [Entries.erase, same]
      · simpa [Entries.erase, same] using inductionHypothesis

theorem hasMember_rename
    (ρ : Renaming) (name : String) (members : List (String × Value)) :
    Entries.has (· == ·) name (members.map (renameMember ρ)) =
      Entries.has (· == ·) name members := by
  rw [Entries.has, Entries.has, List.any_map]
  congr 1
  funext entry
  cases entry
  rfl

theorem twin_members (entries : List (Value × Value)) (read : Entries String Value) :
    Twin pairing (List.map (renameMember pairing.numbers)) (members entries read)
      (members (entries.map (renameEntry pairing.numbers))
        (read.map (renameMember pairing.numbers))) := by
  induction entries generalizing read with
  | nil => exact .pure (eraseMember_rename pairing.numbers kindMember read)
  | cons entry rest inductionHypothesis =>
      obtain ⟨key, value⟩ := entry
      refine .bind (.display key) fun text => ?_
      have later := inductionHypothesis (Entries.put (· == ·) (memberName text) value read)
      rw [← putMember_rename] at later
      exact later

theorem twin_ofMap (kind data : Value) :
    Twin pairing (rename pairing.numbers) (ofMap kind data)
      (ofMap (kind.rename pairing.numbers) (data.rename pairing.numbers)) := by
  cases data with
  | map entries birth =>
      rw [rename_map]
      refine .bind (twin_members entries []) fun fields => ?_
      rw [hasMember_rename]
      split
      · exact .fail
      · exact .bind .newId fun id => .pure (by simp)
  | _ => exact .fail

@[simp]
theorem kind_rename (ρ : Renaming) (value : Value) : kind? (value.rename ρ) = kind? value := by
  have sameClass : kindOfClass? (value.rename ρ) = kindOfClass? value := by
    cases value with
    | event id origin members => cases origin <;> simp [kindOfClass?]
    | _ => simp [kindOfClass?]
  have sameDeclared : declared? (value.rename ρ) = (declared? value).map (rename ρ) := by
    cases value with
    | event id origin members => simp [declared?, Access.findMember_rename]
    | _ => simp [declared?]
  unfold kind?
  rw [sameDeclared, sameClass]
  cases declared? value with
  | none => rfl
  | some declared => cases declared <;> simp [toText?]

theorem twin_parseKind (value : Value) :
    Twin pairing (fun result => result) (parseKind value)
      (parseKind (value.rename pairing.numbers)) := by
  refine .bind (.display value) fun text => ?_
  split
  · exact .pure rfl
  · exact .bind (.shown value) fun _ => .fail

end Event

/-! ## Collections -/

namespace Collection

theorem pairs_rename (ρ : Renaming) (args : List Value) :
    pairs? (args.map (rename ρ)) = (pairs? args).map (List.map (renameEntry ρ)) := by
  fun_induction pairs? args with
  | case1 => rfl
  | case2 => rfl
  | case3 key value rest inductionHypothesis =>
      rw [List.map_cons, List.map_cons, pairs?, inductionHypothesis]
      cases pairs? rest <;> simp

theorem twin_hashMap (args : List Value) :
    Twin pairing (rename pairing.numbers) (hashMap args)
      (hashMap (args.map (rename pairing.numbers))) := by
  unfold hashMap
  rw [pairs_rename]
  cases pairs? args with
  | none => exact .fail
  | some pairs =>
      exact .bind (.ofExcept (putAll_entries_rename pairing.numbers pairs [])) fun entries =>
        .newMap entries

theorem twin_entriesOfPairs (pairs : List Value) (built : ValueEntries) :
    Twin pairing (List.map (renameEntry pairing.numbers)) (entriesOfPairs pairs built)
      (entriesOfPairs (pairs.map (rename pairing.numbers))
        (built.map (renameEntry pairing.numbers))) := by
  induction pairs generalizing built with
  | nil => exact .pure rfl
  | cons pair rest inductionHypothesis =>
      refine .bind (Access.twin_items pair) fun items => ?_
      rcases items with _ | ⟨key, _ | ⟨value, _ | ⟨next, others⟩⟩⟩
      · exact .fail
      · exact .fail
      · exact .bind (.ofExcept (put_entries_rename pairing.numbers key value built))
          fun next => inductionHypothesis next
      · exact .fail

theorem twin_entriesOfEvent (calls : CallersTwin pairing call other) (event : Value) :
    Twin pairing (List.map (renameEntry pairing.numbers)) (entriesOfEvent call event)
      (entriesOfEvent other (event.rename pairing.numbers)) := by
  refine .bind (Access.twin_member? event (pairing.shows_of_plain (by decide) event))
    fun found => ?_
  cases found with
  | none => exact .fail
  | some operation =>
      refine .bind (calls operation []) fun result => ?_
      refine .bind (.current result) fun keys => ?_
      refine .bind (Access.twin_items keys) fun items => ?_
      rw [List.isEmpty_map]
      split
      · exact .pure rfl
      · exact .fail

theorem twin_entriesOf (calls : CallersTwin pairing call other) (value : Value) :
    Twin pairing (List.map (renameEntry pairing.numbers)) (entriesOf call value)
      (entriesOf other (value.rename pairing.numbers)) := by
  have others : Twin pairing (List.map (renameEntry pairing.numbers))
      (Access.items value >>= fun pairs => entriesOfPairs pairs [])
      (Access.items (value.rename pairing.numbers) >>= fun pairs => entriesOfPairs pairs []) :=
    .bind (Access.twin_items value) fun pairs => twin_entriesOfPairs pairs []
  cases value with
  | nil => exact .pure rfl
  | map entries birth => exact .pure (by simp)
  | event id origin members => exact twin_entriesOfEvent calls (.event id origin members)
  | _ => exact others

theorem twin_assoc
    (calls : CallersTwin pairing call other) (value : Value) (args : List Value) :
    Twin pairing (rename pairing.numbers) (assoc call value args)
      (assoc other (value.rename pairing.numbers) (args.map (rename pairing.numbers))) := by
  unfold assoc
  rw [pairs_rename]
  cases pairs? args with
  | none => exact .fail
  | some pairs =>
      exact .bind (twin_entriesOf calls value) fun entries =>
        .bind (.ofExcept (putAll_entries_rename pairing.numbers pairs entries))
          fun entries => .newMap entries

theorem twin_dissoc
    (calls : CallersTwin pairing call other) (value : Value) (keys : List Value) :
    Twin pairing (rename pairing.numbers) (dissoc call value keys)
      (dissoc other (value.rename pairing.numbers) (keys.map (rename pairing.numbers))) :=
  .bind (twin_entriesOf calls value) fun entries =>
    .bind (.ofExcept (eraseAll_rename pairing.numbers keys entries)) fun left => .newMap left

theorem twin_hasPosition (items : List Value) (key : Value) :
    Twin pairing (fun result => result)
      (Pure.pure (match key.toInt? with
        | some position => decide (0 ≤ position ∧ position < items.length)
        | none => false))
      (Pure.pure (match (key.rename pairing.numbers).toInt? with
        | some position => decide (0 ≤ position ∧
            position < (items.map (rename pairing.numbers)).length)
        | none => false)) := by
  rw [toInt_rename, List.length_map]
  exact .pure rfl

theorem twin_contains (collection key : Value) :
    Twin pairing (fun result => result) (contains collection key)
      (contains (collection.rename pairing.numbers) (key.rename pairing.numbers)) := by
  have has (entries : ValueEntries) : Twin pairing (fun result => result)
      (Action.ofExcept (ValueEntries.has entries key))
      (Action.ofExcept (ValueEntries.has (entries.map (renameEntry pairing.numbers))
        (key.rename pairing.numbers))) := by
    rw [has_entries_rename]
    exact .readingSame fun _ _ _ => rfl
  have pieces (text : String) : Twin pairing (fun result => result)
      (contains (.str text) key)
      (contains (.str text) (key.rename pairing.numbers)) := by
    cases key with
    | str piece => exact .pure rfl
    | keyword piece => exact .pure rfl
    | symbol piece => exact .pure rfl
    | _ => exact .fail
  cases collection with
  | nil => exact .pure rfl
  | map entries birth =>
      rw [rename_map]
      exact has entries
  | store id =>
      refine .get_bind fun left right like => ?_
      rw [like.entries]
      exact has (left.entries id)
  | list items birth =>
      rw [rename_list]
      exact twin_hasPosition items key
  | str text => exact pieces text
  | keyword text => exact pieces text
  | symbol text => exact pieces text
  | tuple items =>
      rw [rename_tuple]
      exact twin_hasPosition items key
  | vector items birth => exact twin_hasPosition [.list items birth] key
  | quoted form => exact twin_hasPosition [form] key
  | _ => exact .fail

theorem twin_count (collection : Value) :
    Twin pairing (fun result => result) (count collection)
      (count (collection.rename pairing.numbers)) := by
  have length := @Access.twin_length pairing collection
  cases collection with
  | nil => exact .pure rfl
  | _ => exact length

theorem twin_first (collection : Value) :
    Twin pairing (rename pairing.numbers) (first collection)
      (first (collection.rename pairing.numbers)) := by
  refine .bind (Access.twin_isPresent collection) fun present => ?_
  split
  · exact Access.twin_itemAt collection (.int 0)
  · exact .pure rfl

theorem twin_second (collection : Value) :
    Twin pairing (rename pairing.numbers) (second collection)
      (second (collection.rename pairing.numbers)) := by
  refine .bind (twin_count collection) fun size => ?_
  split
  · exact Access.twin_itemAt collection (.int 1)
  · exact .pure rfl

theorem twin_rest (collection : Value) :
    Twin pairing (rename pairing.numbers) (rest collection)
      (rest (collection.rename pairing.numbers)) := by
  refine .bind (Access.twin_isPresent collection) fun present => ?_
  split
  · exact .bind (Access.twin_itemsAfterFirst collection) fun items => .newList items
  · exact .newList []

theorem twin_itemOr (collection index : Value) (default : Option Value) (inside : Bool) :
    Twin pairing (rename pairing.numbers)
      (if inside then Access.itemAt collection index else
        match default with
        | some value => Pure.pure value
        | none => Action.display index >>= fun text => Action.fail (.indexOutOfBounds text))
      (if inside then
        Access.itemAt (collection.rename pairing.numbers) (index.rename pairing.numbers) else
        match default.map (rename pairing.numbers) with
        | some value => Pure.pure value
        | none => Action.display (index.rename pairing.numbers) >>= fun text =>
            Action.fail (.indexOutOfBounds text)) := by
  split
  · exact Access.twin_itemAt collection index
  · cases default with
    | none => exact .bind (.display index) fun _ => .fail
    | some value => exact .pure rfl

theorem twin_nth (collection index : Value) (default : Option Value) :
    Twin pairing (rename pairing.numbers) (nth collection index default)
      (nth (collection.rename pairing.numbers) (index.rename pairing.numbers)
        (default.map (rename pairing.numbers))) := by
  have counted : Twin pairing (fun result => result)
      (do
        if ← Action.ofExcept (Value.compares .atMost (.int 0) index) then
          let size ← Access.length collection
          Action.ofExcept (Value.compares .less index (.int size))
        else
          return false)
      (do
        if ← Action.ofExcept (Value.compares .atMost (.int 0)
            (index.rename pairing.numbers)) then
          let size ← Access.length (collection.rename pairing.numbers)
          Action.ofExcept (Value.compares .less (index.rename pairing.numbers) (.int size))
        else
          return false) := by
    refine .bind (Arithmetic.twin_compares .atMost (.int 0) index) fun positive => ?_
    split
    · exact .bind (Access.twin_length collection) fun size =>
        Arithmetic.twin_compares .less index (.int size)
    · exact .pure rfl
  have outcome : ∀ inside : Bool, Twin pairing _ _ _ := twin_itemOr collection index default
  cases collection with
  | nil => exact outcome false
  | _ => exact .bind counted outcome

theorem twin_conj (collection : Value) (items : List Value) :
    Twin pairing (rename pairing.numbers) (conj collection items)
      (conj (collection.rename pairing.numbers) (items.map (rename pairing.numbers))) := by
  refine .bind (Access.twin_itemsIfPresent collection) fun held => ?_
  rw [← List.map_append]
  exact .newList _

theorem twin_listed
    (calls : CallersTwin pairing call other) {operation : String} (collection : Value)
    (plain : operation ∉ ["_data", "vars", "parent", "config", "env"]) :
    Twin pairing (rename pairing.numbers) (listed call operation collection)
      (listed other operation (collection.rename pairing.numbers)) := by
  refine .bind (Access.twin_isPresent collection) fun present => ?_
  split
  · exact .bind (Access.twin_callMember calls collection [] plain) fun result =>
      .bind (.current result) fun result => .bind (Access.twin_items result) fun items =>
        .newList items
  · exact .pure rfl

theorem twin_mapItems (calls : CallersTwin pairing call other) (function collection : Value) :
    Twin pairing (rename pairing.numbers) (mapItems call function collection)
      (mapItems other (function.rename pairing.numbers)
        (collection.rename pairing.numbers)) := by
  refine .bind (Access.twin_itemsIfPresent collection) fun items => ?_
  refine .bind (Access.twin_overItems (List.map (rename pairing.numbers)) collection items
    [] fun results item => ?_) fun results => ?_
  · exact .bind (calls function [item]) fun result => .pure rfl
  · rw [← List.map_reverse]
    exact .newList _

theorem twin_filterItems
    (calls : CallersTwin pairing call other) (function collection : Value) :
    Twin pairing (rename pairing.numbers) (filterItems call function collection)
      (filterItems other (function.rename pairing.numbers)
        (collection.rename pairing.numbers)) := by
  refine .bind (Access.twin_itemsIfPresent collection) fun items => ?_
  refine .bind (Access.twin_overItems (List.map (rename pairing.numbers)) collection items
    [] fun kept item => ?_) fun kept => ?_
  · refine .bind (calls function [item]) fun result => .pure ?_
    rw [isTrue_rename]
    split <;> rfl
  · rw [← List.map_reverse]
    exact .newList _

theorem twin_someItem
    (calls : CallersTwin pairing call other) (function collection : Value) :
    Twin pairing (rename pairing.numbers) (someItem call function collection)
      (someItem other (function.rename pairing.numbers)
        (collection.rename pairing.numbers)) := by
  refine .bind (Access.twin_itemsIfPresent collection) fun items => ?_
  refine Access.twin_overItems (rename pairing.numbers) collection items .nil fun state item => ?_
  refine .bind (calls function [item]) fun result => .pure ?_
  rw [isTrue_rename]
  split <;> rfl

theorem twin_combineStep
    (calls : CallersTwin pairing call other) (function result item : Value) :
    Twin pairing (Access.Progress.map (rename pairing.numbers))
      (combineStep call function result item)
      (combineStep other (function.rename pairing.numbers) (result.rename pairing.numbers)
        (item.rename pairing.numbers)) :=
  .bind (calls function [result, item]) fun _ => .pure rfl

theorem twin_reduce
    (calls : CallersTwin pairing call other) (function : Value) (args : List Value) :
    Twin pairing (rename pairing.numbers) (reduce call function args)
      (reduce other (function.rename pairing.numbers)
        (args.map (rename pairing.numbers))) := by
  rcases args with _ | ⟨first, _ | ⟨second, _ | ⟨third, rest⟩⟩⟩
  · exact .fail
  · refine .bind (Access.twin_items first) fun items => ?_
    cases items with
    | nil => exact .fail
    | cons item rest =>
        have through := Access.twin_goThrough (rename pairing.numbers) first
          (twin_combineStep calls function) (rest.length + 1) 1 rest item
        simp only [List.map_cons, List.length_map]
        exact through
  · exact .bind (Access.twin_items second) fun items =>
      Access.twin_overItems (rename pairing.numbers) second items first
        (twin_combineStep calls function)
  · exact .fail

theorem twin_apply
    (calls : CallersTwin pairing call other) (function : Value) (args : List Value) :
    Twin pairing (rename pairing.numbers) (apply call function args)
      (apply other (function.rename pairing.numbers)
        (args.map (rename pairing.numbers))) := by
  unfold apply
  rw [List.getLast?_map]
  cases args.getLast? with
  | none => exact calls function []
  | some last =>
      refine .bind (Access.twin_itemsIfPresent last) fun more => ?_
      rw [← List.map_dropLast, ← List.map_append]
      exact calls function _

end Collection

/-! ## Devices -/

namespace Device

theorem twin_isInstance (lineage : Lineage) (kind value : Value) :
    Twin pairing (fun result => result) (isInstance lineage kind value)
      (isInstance lineage (kind.rename pairing.numbers) (value.rename pairing.numbers)) := by
  have parsed : Twin pairing (fun result => result)
      (Event.parseKind kind >>= fun target =>
        Pure.pure (lineage.isA (Event.kind? value) target))
      (Event.parseKind (kind.rename pairing.numbers) >>= fun target =>
        Pure.pure (lineage.isA (Event.kind? (value.rename pairing.numbers)) target)) :=
    .bind (Event.twin_parseKind kind) fun target => .pure (by rw [Event.kind_rename])
  cases kind with
  | kind target => exact .pure (by rw [Event.kind_rename])
  | _ => exact parsed

theorem twin_read
    (calls : CallersTwin pairing call other) (value : Value) {name : String}
    (plain : name ∉ ["_data", "vars", "parent", "config", "env"]) :
    Twin pairing (rename pairing.numbers) (read call value name)
      (read other (value.rename pairing.numbers) name) := by
  refine .bind (Access.twin_member value (pairing.shows_of_plain plain value)) fun found => ?_
  rw [Access.isCallable_rename]
  split
  · exact calls found []
  · exact .pure rfl

theorem twin_enumKeyword (value : Value) (allowed : List String) :
    Twin pairing (rename pairing.numbers) (enumKeyword value allowed)
      (enumKeyword (value.rename pairing.numbers) allowed) := by
  have displayed := @Twin.display pairing value
  cases value with
  | constant name => exact .pure rfl
  | kind kind => exact .pure rfl
  | _ => exact .bind displayed fun text => .pure rfl

theorem twin_trackSourceSlot (calls : CallersTwin pairing call other) (status : Value) :
    Twin pairing (rename pairing.numbers) (trackSourceSlot call status)
      (trackSourceSlot other (status.rename pairing.numbers)) :=
  .bind (twin_read calls status (by decide)) fun found => twin_enumKeyword found slots

theorem twin_trackType (calls : CallersTwin pairing call other) (status : Value) :
    Twin pairing (rename pairing.numbers) (trackType call status)
      (trackType other (status.rename pairing.numbers)) :=
  .bind (twin_read calls status (by decide)) fun found => twin_enumKeyword found trackTypes

theorem twin_lookup (calls : CallersTwin pairing call other) (collection key : Value) :
    Twin pairing (rename pairing.numbers) (lookup call collection key)
      (lookup other (collection.rename pairing.numbers) (key.rename pairing.numbers)) :=
  .bind (Access.twin_lookup calls collection key (some .nil)) fun found =>
    .pure (Access.getD_nil_rename pairing.numbers found)

theorem twin_trackMatches
    (calls : CallersTwin pairing call other) (status globals source number : Value) :
    Twin pairing (fun result => result) (trackMatches call status globals source number)
      (trackMatches other (status.rename pairing.numbers) (globals.rename pairing.numbers)
        (source.rename pairing.numbers) (number.rename pairing.numbers)) := by
  refine .bind (twin_lookup calls globals source) fun media => ?_
  refine .bind (twin_read calls status (by decide)) fun player => ?_
  refine .bind (twin_lookup calls media (.str "player")) fun mounted => ?_
  refine .bind (.equal player mounted) fun samePlayer => ?_
  split
  · refine .bind (twin_trackSourceSlot calls status) fun slot => ?_
    refine .bind (twin_lookup calls media (.str "slot")) fun mountedSlot => ?_
    refine .bind (.equal slot mountedSlot) fun sameSlot => ?_
    split
    · exact .bind (twin_read calls status (by decide)) fun loaded => .equal loaded number
    · exact .pure rfl
  · exact .pure rfl

theorem twin_publish
    (calls : CallersTwin pairing call other) (locals description : Value) :
    Twin pairing (fun result => result) (publish call locals description)
      (publish other (locals.rename pairing.numbers)
        (description.rename pairing.numbers)) :=
  .bind (Access.twin_callMember calls locals [descriptionKey, description] (by decide))
    fun _ => .pure rfl

theorem twin_describe
    (calls : CallersTwin pairing call other) (locals describer track : Value) :
    Twin pairing (fun result => result) (describe call locals describer track)
      (describe other (locals.rename pairing.numbers) (describer.rename pairing.numbers)
        (track.rename pairing.numbers)) :=
  .bind (Access.twin_member locals (pairing.shows_of_plain (by decide) locals)) fun operation =>
    .bind (calls describer [track]) fun description =>
      .bind (calls operation [descriptionKey, description]) fun _ => .pure rfl

theorem twin_withdraw (calls : CallersTwin pairing call other) (locals : Value) :
    Twin pairing (fun result => result) (withdraw call locals)
      (withdraw other (locals.rename pairing.numbers)) :=
  .bind (Access.twin_callMember calls locals [descriptionKey] (by decide)) fun _ => .pure rfl

theorem twin_findTrack
    (calls : CallersTwin pairing call other)
    (status locals globals source describer : Value) :
    Twin pairing (rename pairing.numbers)
      (findTrack call status locals globals source describer)
      (findTrack other (status.rename pairing.numbers) (locals.rename pairing.numbers)
        (globals.rename pairing.numbers) (source.rename pairing.numbers)
        (describer.rename pairing.numbers)) := by
  refine .bind (twin_read calls status (by decide)) fun player => ?_
  refine .bind (twin_trackSourceSlot calls status) fun slot => ?_
  refine .bind (twin_read calls status (by decide)) fun number => ?_
  have path : Value.rename pairing.numbers (.tuple [source, player, slot, number]) =
      .tuple [source.rename pairing.numbers, player.rename pairing.numbers,
        slot.rename pairing.numbers, number.rename pairing.numbers] := by simp
  rw [← path]
  refine .bind (Access.twin_lookupPath calls globals _) fun found => ?_
  rw [Access.getD_nil_rename]
  generalize found.getD .nil = track
  have withdrawn : Twin pairing (rename pairing.numbers)
      (withdraw call locals >>= fun _ => Pure.pure track)
      (withdraw other (locals.rename pairing.numbers) >>= fun _ =>
        Pure.pure (track.rename pairing.numbers)) :=
    .bind (twin_withdraw calls locals) fun _ => .pure rfl
  have described : Twin pairing (rename pairing.numbers)
      (do
        if track.isTrue then describe call locals describer track else withdraw call locals
        return track)
      (do
        if (track.rename pairing.numbers).isTrue then
          describe other (locals.rename pairing.numbers) (describer.rename pairing.numbers)
            (track.rename pairing.numbers)
        else
          withdraw other (locals.rename pairing.numbers)
        return track.rename pairing.numbers) := by
    rw [isTrue_rename]
    split
    · exact .bind (twin_describe calls locals describer track) fun _ => .pure rfl
    · exact withdrawn
  cases source with
  | nil => exact .pure rfl
  | _ =>
      cases describer with
      | nil => exact withdrawn
      | _ => exact described

end Device

/-! ## Operations of values -/

namespace Member

theorem twin_callOnMap (entries : ValueEntries) (operation : String) (args : List Value) :
    Twin pairing (rename pairing.numbers) (callOnMap entries operation args)
      (callOnMap (entries.map (renameEntry pairing.numbers)) operation
        (args.map (rename pairing.numbers))) := by
  unfold callOnMap
  split
  · exact .bind (.ofExcept (get_rename pairing.numbers _ entries)) fun found =>
      .pure (Access.getD_nil_rename pairing.numbers found)
  · exact .bind (.ofExcept (get_rename pairing.numbers _ entries)) fun found =>
      .pure (Access.getD_map_rename pairing.numbers found _)
  · rw [keys_rename]
    exact .newList _
  · rw [values_rename]
    exact .newList _
  · split
    all_goals first
      | exact .fail
      | (simp only [List.map_eq_cons_iff, List.map_eq_nil_iff] at *; grind)

theorem withoutFirst_rename (ρ : Renaming) (value : Value) (items : List Value) :
    withoutFirst? (value.rename ρ) (items.map (rename ρ)) =
      (withoutFirst? value items).map (List.map (rename ρ)) := by
  induction items with
  | nil => rfl
  | cons item rest inductionHypothesis =>
      rw [List.map_cons, withoutFirst?, withoutFirst?, agrees_rename, inductionHypothesis]
      split
      · rfl
      · cases withoutFirst? value rest <;> rfl

theorem twin_callOnList (items : List Value) (birth : Nat) (args : List Value) :
    Twin pairing (rename pairing.numbers) (callOnList items birth args)
      (callOnList (items.map (rename pairing.numbers)) (pairing.numbers.births birth)
        (args.map (rename pairing.numbers))) := by
  rcases args with _ | ⟨value, _ | ⟨next, rest⟩⟩
  · exact .fail
  · simp only [List.map_cons, List.map_nil, callOnList, withoutFirst_rename]
    cases withoutFirst? value items with
    | none => exact .fail
    | some left => exact .bind (.modify fun _ _ like => like.leave birth left) fun _ => .pure rfl
  · exact .fail

theorem twin_callOnScope
    (isOpen : pairing.Open) (scope : Nat) (operation : String) (args : List Value) :
    Twin pairing (rename pairing.numbers) (callOnScope scope operation args)
      (callOnScope (pairing.numbers.scopes scope) operation
        (args.map (rename pairing.numbers))) := by
  obtain ⟨tight, together⟩ := isOpen
  have meets := tight.unbacked.meets scope
  have child : Twin pairing (rename pairing.numbers)
      (Action.childScope scope [] >>= fun inner => Pure.pure (.scope inner))
      (Action.childScope (pairing.numbers.scopes scope) [] >>= fun inner =>
        Pure.pure (.scope inner)) :=
    .childScope_bind meets [] fun inner _ => .pure rfl
  have childWith (holder : Value) : Twin pairing (rename pairing.numbers)
      (do
        let vars ← Action.change fun heap => heap.variablesOf holder
        return .scope (← Action.scopeInside scope vars))
      (do
        let vars ← Action.change fun heap =>
          heap.variablesOf (holder.rename pairing.numbers)
        return .scope (← Action.scopeInside (pairing.numbers.scopes scope) vars)) :=
    .bind (.change fun _ _ like => like.variablesOf together holder) fun vars =>
      .bind (.scopeInside together (fun table _ => tight table) meets) fun inner => .pure rfl
  unfold callOnScope
  split
  · exact .lookup (.inl tight) meets
  · exact .bind (.define (.inl tight) _ _) fun _ => .pure rfl
  · exact child
  · exact child
  · rename_i holder notNil
    cases holder with
    | nil => exact (notNil rfl).elim
    | _ => exact childWith _
  · split
    all_goals first
      | exact .fail
      | (simp only [List.map_eq_cons_iff, List.map_eq_nil_iff] at *; grind)

theorem twin_call
    (calls : CallersTwin pairing call other) (receiver : Value) (operation : String)
    (args : List Value) (shared : ∀ id, receiver = .scope id → pairing.Open) :
    Twin pairing (rename pairing.numbers) (Member.call call receiver operation args)
      (Member.call other (receiver.rename pairing.numbers) operation
        (args.map (rename pairing.numbers))) := by
  cases receiver with
  | store id => exact Store.twin_perform calls id operation args
  | map entries birth =>
      rw [rename_map]
      exact twin_callOnMap entries operation args
  | list items birth =>
      rw [rename_list]
      exact twin_callOnList items birth args
  | kind kind =>
      simp only [rename_kind, Member.call]
      split
      · exact .bind (Event.twin_parseKind _) fun found => .pure rfl
      · refine .pure ?_
        simp only [Event.kind_rename]
        cases Event.kind? _ <;> rfl
      · split
        all_goals first
          | exact .fail
          | (simp only [List.map_eq_cons_iff, List.map_eq_nil_iff] at *; grind)
  | event id origin members =>
      rcases args with _ | ⟨kind, _ | ⟨data, _ | ⟨next, rest⟩⟩⟩
      · exact .fail
      · exact .fail
      · exact Event.twin_ofMap kind data
      · exact .fail
  | symbol name =>
      cases args with
      | nil => exact .pure rfl
      | cons first rest => exact .fail
  | scope id => exact twin_callOnScope (shared id rfl) id operation args
  | settings config =>
      cases args with
      | nil =>
          have listed := @Twin.newList pairing (config.warnings.map .str)
          rw [List.map_map] at listed
          exact listed
      | cons first rest => exact .fail
  | _ => exact .fail

end Member

/-! ## Calls of built-in functions -/

namespace Call

theorem twin_hasParity (remainder : Int) (value : Value) :
    Twin pairing (rename pairing.numbers) (hasParity remainder value)
      (hasParity remainder (value.rename pairing.numbers)) := by
  refine .bind (Arithmetic.twin_modulo value (.int 2)) fun left => .pure ?_
  have same := equal_rename pairing.numbers left (.int remainder)
  rw [rename_int] at same
  rw [same, rename_bool]

theorem twin_comparesToZero (relation : Comparison) (value : Value) :
    Twin pairing (rename pairing.numbers) (comparesToZero relation value)
      (comparesToZero relation (value.rename pairing.numbers)) :=
  .bind (Arithmetic.twin_compares relation value (.int 0)) fun _ => .pure rfl

theorem twin_ordered (relation : Comparison) (args : List Value) :
    Twin pairing (rename pairing.numbers) (ordered relation args)
      (ordered relation (args.map (rename pairing.numbers))) := by
  cases args with
  | nil => exact .fail
  | cons first rest =>
      exact .bind (Arithmetic.twin_eachHolds (Arithmetic.twin_compares relation) first rest)
        fun _ => .pure rfl

theorem twin_allEqual (args : List Value) :
    Twin pairing (fun result => result) (allEqual args)
      (allEqual (args.map (rename pairing.numbers))) := by
  cases args with
  | nil => exact .fail
  | cons first rest =>
      exact Arithmetic.twin_eachHolds
        (fun a b => .pure (equal_rename pairing.numbers a b)) first rest

theorem twin_extremeOf (relation : Comparison) (args : List Value) :
    Twin pairing (rename pairing.numbers) (extremeOf relation args)
      (extremeOf relation (args.map (rename pairing.numbers))) := by
  rcases args with _ | ⟨first, _ | ⟨second, rest⟩⟩
  · exact .fail
  · refine .bind (Access.twin_items first) fun items => ?_
    cases items with
    | nil => exact .fail
    | cons item others => exact Arithmetic.twin_extreme relation item others
  · exact Arithmetic.twin_extreme relation first (second :: rest)

theorem twin_joinedText (values : List Value) :
    Twin pairing (fun result => result) (joinedText values)
      (joinedText (values.map (rename pairing.numbers))) := by
  induction values with
  | nil => exact .pure rfl
  | cons value rest inductionHypothesis =>
      exact .bind (.readingSame fun _ _ like => like.textPart value) fun text =>
        .bind inductionHypothesis fun texts => .pure rfl

theorem twin_performArithmetic (function : Builtin) (args : List Value) :
    Twin pairing (rename pairing.numbers) (performArithmetic function args)
      (performArithmetic function (args.map (rename pairing.numbers))) := by
  unfold performArithmetic
  split
  · exact Arithmetic.twin_chain Arithmetic.twin_add (.int 0) args
  · exact Arithmetic.twin_negate _
  · rename_i first rest more
    cases rest with
    | nil => exact (more rfl).elim
    | cons second rest => exact Arithmetic.twin_chain Arithmetic.twin_subtract first _
  · exact Arithmetic.twin_chain Arithmetic.twin_multiply (.int 1) args
  · exact Arithmetic.twin_divide (.int 1) _
  · rename_i first rest more
    cases rest with
    | nil => exact (more rfl).elim
    | cons second rest => exact Arithmetic.twin_chain Arithmetic.twin_divide first _
  · exact .bind (Arithmetic.twin_quotient _ _) fun whole => Arithmetic.twin_integerPart whole
  · exact Arithmetic.twin_modulo _ _
  · exact Arithmetic.twin_add _ (.int 1)
  · exact Arithmetic.twin_subtract _ (.int 1)
  · exact twin_extremeOf .greater args
  · exact twin_extremeOf .less args
  · exact Arithmetic.twin_absolute _
  · split
    all_goals first
      | exact .fail
      | (simp only [List.map_eq_cons_iff, List.map_eq_nil_iff] at *; grind)

theorem twin_performTest (function : Builtin) (args : List Value) :
    Twin pairing (rename pairing.numbers) (performTest function args)
      (performTest function (args.map (rename pairing.numbers))) := by
  unfold performTest
  split
  · exact .bind (twin_allEqual args) fun _ => .pure rfl
  · exact .bind (twin_allEqual args) fun _ => .pure rfl
  · exact twin_ordered .less args
  · exact twin_ordered .greater args
  · exact twin_ordered .atMost args
  · exact twin_ordered .atLeast args
  · exact .pure (by simp)
  · exact .pure (by cases ‹Value› <;> rfl)
  · exact .pure (by cases ‹Value› <;> rfl)
  · exact .pure (by cases ‹Value› <;> rfl)
  · exact .pure (by cases ‹Value› <;> rfl)
  · rename_i value
    have same := equal_rename pairing.numbers value (.int 0)
    exact .pure (congrArg Value.bool same)
  · exact twin_comparesToZero .greater _
  · exact twin_comparesToZero .less _
  · exact twin_hasParity 0 _
  · exact twin_hasParity 1 _
  · exact .pure (by cases ‹Value› <;> rfl)
  · exact .pure (by cases ‹Value› <;> rfl)
  · exact .pure (by cases ‹Value› <;> rfl)
  · split
    all_goals first
      | exact .fail
      | (simp only [List.map_eq_cons_iff, List.map_eq_nil_iff] at *; grind)

theorem twin_performText (function : Builtin) (args : List Value) :
    Twin pairing (rename pairing.numbers) (performText function args)
      (performText function (args.map (rename pairing.numbers))) := by
  unfold performText
  split
  · exact .bind (twin_joinedText args) fun _ => .pure rfl
  · rename_i template values
    simp only [List.map_cons, toText_rename]
    split
    · exact Arithmetic.twin_fillTemplate template _ ⟨values, none⟩
    · exact .fail
  · exact .bind (.display _) fun _ => .pure rfl
  · exact .bind (.display _) fun _ => .pure rfl
  · split
    all_goals first
      | exact .fail
      | (simp only [List.map_eq_cons_iff, List.map_eq_nil_iff] at *; grind)

theorem twin_performCollection
    (calls : CallersTwin pairing call other) (function : Builtin) (args : List Value) :
    Twin pairing (rename pairing.numbers) (performCollection call function args)
      (performCollection other function (args.map (rename pairing.numbers))) := by
  unfold performCollection
  split
  · exact .bind (Access.twin_lookup calls _ _ (some .nil)) fun found =>
      .pure (Access.getD_nil_rename pairing.numbers found)
  · exact .bind (Access.twin_lookup calls _ _ (some _)) fun found =>
      .pure (Access.getD_map_rename pairing.numbers found _)
  · exact .bind (Access.twin_lookupPath calls _ _) fun found =>
      .pure (Access.getD_nil_rename pairing.numbers found)
  · exact .bind (Access.twin_lookupPath calls _ _) fun found =>
      .pure (Access.getD_map_rename pairing.numbers found _)
  · exact .newList args
  · exact Collection.twin_hashMap args
  · exact Collection.twin_assoc calls _ _
  · exact Collection.twin_dissoc calls _ _
  · exact .bind (Collection.twin_contains _ _) fun _ => .pure rfl
  · exact .bind (Collection.twin_count _) fun _ => .pure rfl
  · exact .bind (Collection.twin_count _) fun _ => .pure rfl
  · exact Collection.twin_first _
  · exact Collection.twin_second _
  · exact Collection.twin_rest _
  · rename_i collection index default
    have nth := @Collection.twin_nth pairing collection index default.head?
    rw [← List.head?_map] at nth
    exact nth
  · exact Collection.twin_conj _ _
  · exact Collection.twin_listed calls _ (by decide)
  · exact Collection.twin_listed calls _ (by decide)
  · exact Collection.twin_mapItems calls _ _
  · exact Collection.twin_filterItems calls _ _
  · exact Collection.twin_someItem calls _ _
  · exact Collection.twin_reduce calls _ _
  · exact Collection.twin_apply calls _ _
  · split
    all_goals first
      | exact .fail
      | (simp only [List.map_eq_cons_iff, List.map_eq_nil_iff] at *; grind)

theorem twin_performDevice
    (calls : CallersTwin pairing call other) (function : Builtin) (args : List Value) :
    Twin pairing (rename pairing.numbers) (performDevice call function args)
      (performDevice other function (args.map (rename pairing.numbers))) := by
  have callMember (store : Value) (name : String) (rest : List Value)
      (plain : name ∉ ["_data", "vars", "parent", "config", "env"]) :=
    Access.twin_callMember calls store rest plain
  unfold performDevice
  split
  · exact .bind (Device.twin_isInstance Lineage.standard _ _) fun _ => .pure rfl
  · exact Arithmetic.twin_divide _ (.int Device.neutralPitch)
  · refine .bind (Arithmetic.twin_subtract _ (.int Device.neutralPitch)) fun deviation => ?_
    refine .bind ?_ fun scaled => Arithmetic.twin_divide scaled (.int Device.neutralPitch)
    have scale := @Arithmetic.twin_multiply pairing deviation
      (.float (Binary64.ofInt 100) 0)
    rw [rename_float, pairing.numbers.births_zero] at scale
    exact scale
  · exact Device.twin_trackSourceSlot calls _
  · exact Device.twin_trackType calls _
  · exact .bind (Device.twin_trackMatches calls _ _ _ _) fun _ => .pure rfl
  · exact Device.twin_findTrack calls _ _ _ _ .nil
  · exact Device.twin_findTrack calls _ _ _ _ _
  · exact callMember _ "get" [_, .nil] (by decide)
  · exact callMember _ "get" [_, _] (by decide)
  · exact callMember _ "set" [_, _] (by decide)
  · exact callMember _ "remove" [_] (by decide)
  · exact callMember _ "update" (_ :: _ :: _) (by decide)
  · exact callMember _ "compare_and_set" [_, _, _] (by decide)
  · exact .bind (Device.twin_publish calls _ _) fun _ => .pure rfl
  · split
    all_goals first
      | exact .fail
      | (simp only [List.map_eq_cons_iff, List.map_eq_nil_iff] at *; grind)

theorem twin_perform
    (calls : CallersTwin pairing call other) (function : Builtin) (args : List Value) :
    Twin pairing (rename pairing.numbers) (perform call function args)
      (perform other function (args.map (rename pairing.numbers))) := by
  unfold perform
  split
  · exact twin_performArithmetic function args
  · exact twin_performTest function args
  · exact twin_performText function args
  · exact twin_performCollection calls function args
  · exact twin_performDevice calls function args

end Call

end CueScript
