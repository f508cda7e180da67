import CueScript.Builtin.Call
import CueScript.Builtin.Member
import CueScript.Proofs.Run.Access

/-!
# Built-in functions in runs that agree

Built-in functions and the operations of values agree in two runs and keep to the
bounds, if what they call agrees.  A list that loses items must be one that may.
-/

namespace CueScript

open Value

variable {pact : Pact} {call : Side → Caller}

namespace Arithmetic

/-! ## Arithmetic -/

theorem agree_operands (a b : Value) :
    Agree pact (fun _ => True) fun _ => operands a b := by
  unfold operands
  split
  · exact .pure trivial
  · exact .fail

theorem agree_toDouble (x : Numeric) :
    Agree pact (fun _ => True) fun _ => toDouble x := by
  unfold toDouble
  split
  · exact .pure trivial
  · exact .fail

theorem agree_combine
    (exact' : Int → Int → Int) (rounded : Binary64 → Binary64 → Binary64) (a b : Value) :
    Agree pact (Within pact.bounds) fun _ => combine exact' rounded a b := by
  refine .bind (agree_operands a b) fun numbers _ => ?_
  split
  · exact .pure trivial
  · exact .bind (agree_toDouble _) fun _ _ => .bind (agree_toDouble _) fun _ _ => .newFloat _

theorem agree_negate (a : Value) :
    Agree pact (Within pact.bounds) fun _ => negate a := by
  unfold negate
  split
  · exact .pure trivial
  · exact .newFloat _
  · exact .fail

theorem agree_absolute (a : Value) :
    Agree pact (Within pact.bounds) fun _ => absolute a := by
  unfold absolute
  split
  · exact .pure trivial
  · exact .newFloat _
  · exact .fail

theorem agree_repetitions (length : Nat) (count : Int) (tooLong : Failure) :
    Agree pact (fun _ => True) fun _ => repetitions length count tooLong := by
  unfold repetitions
  split
  · exact .fail
  · split
    · exact .fail
    · split
      · exact .fail
      · exact .pure trivial

theorem allWithin_repeatItems
    {bounds : Bounds} {items : List Value} (within : AllWithin bounds items) (count : Nat) :
    AllWithin bounds (repeatItems items count) := by
  refine within.sublist fun item member => ?_
  obtain ⟨part, isPart, isItem⟩ := List.mem_flatten.mp member
  rw [(List.mem_replicate.mp isPart).2] at isItem
  exact isItem

theorem agree_repeated (value : Value) (count : Int) : value.Within pact.bounds →
    Agree pact (Within pact.bounds) fun _ =>
      match value.toText?, value.toTuple?, value with
      | some text, _, _ => do
          let times ← repetitions text.length count .tooLarge
          return .str (String.ofList (repeatItems text.toList times))
      | none, some items, _ => do
          let times ← repetitions items.length count .outOfMemory
          return .tuple (repeatItems items times)
      | none, none, .list items _ => do
          let times ← repetitions items.length count .outOfMemory
          Action.newList (repeatItems items times)
      | none, none, _ => Action.fail .wrongType := by
  intro within
  split
  · exact .bind (agree_repetitions _ _ _) fun _ _ => .pure trivial
  · have itemsWithin := within_of_toTuple within ‹_›
    exact .bind (agree_repetitions _ _ _) fun times _ =>
      .pure (allWithin_repeatItems itemsWithin times)
  · exact .bind (agree_repetitions _ _ _) fun times _ =>
      .newList (allWithin_repeatItems within.2 times)
  · exact .fail

theorem agree_multiply
    {a b : Value} (aWithin : a.Within pact.bounds) (bWithin : b.Within pact.bounds) :
    Agree pact (Within pact.bounds) fun _ => multiply a b := by
  unfold multiply
  split
  · exact .pure trivial
  · split
    · exact agree_combine _ _ _ _
    · exact agree_repeated b _ bWithin
  · split
    · exact agree_combine _ _ _ _
    · exact agree_repeated a _ aWithin
  · exact agree_combine _ _ _ _

theorem agree_quotient (a b : Value) :
    Agree pact (fun _ => True) fun _ => quotient a b := by
  refine .bind (agree_operands a b) fun numbers _ => ?_
  split
  · unfold quotientOfInts
    split
    · exact .fail
    · split
      · exact .fail
      · exact .pure trivial
  · refine .bind (agree_toDouble _) fun _ _ => .bind (agree_toDouble _) fun _ _ => ?_
    split
    · exact .fail
    · exact .pure trivial

theorem agree_divide (a b : Value) :
    Agree pact (Within pact.bounds) fun _ => divide a b :=
  .bind (agree_quotient a b) fun _ _ => .newFloat _

theorem agree_integerPart (x : Binary64) :
    Agree pact (Within pact.bounds) fun _ => integerPart x := by
  unfold integerPart
  split
  · exact .pure trivial
  · exact .fail
  · exact .fail

theorem agree_fillTemplate
    {template : Value} (within : template.Within pact.bounds) (text : String)
    (arguments : Template.Arguments) :
    Agree pact (Within pact.bounds) fun _ => fillTemplate template text arguments := by
  have filled : Agree pact (fun _ => True) fun _ =>
      Action.reading fun heap => Template.fill ⟨heap.display, heap.shown⟩ text arguments :=
    .reading (fun _ _ => by rw [Heap.display_equip, Heap.shown_equip]) fun _ _ _ _ => trivial
  refine .bind filled fun result _ => ?_
  split
  · exact .pure trivial
  · exact .pure within

theorem agree_modulo
    {a : Value} (within : a.Within pact.bounds) (b : Value) :
    Agree pact (Within pact.bounds) fun _ => modulo a b := by
  unfold modulo
  split
  · exact agree_fillTemplate within _ _
  · refine .bind (agree_operands a b) fun numbers _ => ?_
    split
    · split
      · exact .fail
      · exact .pure trivial
    · refine .bind (agree_toDouble _) fun _ _ => .bind (agree_toDouble _) fun _ _ => ?_
      split
      · exact .fail
      · exact .newFloat _

theorem agree_chain
    {operation : Value → Value → Action Value}
    (agrees : ∀ a b, a.Within pact.bounds → b.Within pact.bounds →
      Agree pact (Within pact.bounds) fun _ => operation a b)
    {result : Value} {values : List Value}
    (within : result.Within pact.bounds) (valuesWithin : AllWithin pact.bounds values) :
    Agree pact (Within pact.bounds) fun _ => chain operation result values := by
  induction values generalizing result with
  | nil => exact .pure within
  | cons value rest inductionHypothesis =>
      exact .bind (agrees result value within valuesWithin.1) fun next nextWithin =>
        inductionHypothesis nextWithin valuesWithin.2

theorem agree_eachHolds
    {relation : Value → Value → Action Bool}
    (agrees : ∀ a b, Agree pact (fun _ => True) fun _ => relation a b)
    (previous : Value) (values : List Value) :
    Agree pact (fun _ => True) fun _ => eachHolds relation previous values := by
  induction values generalizing previous with
  | nil => exact .pure trivial
  | cons value rest inductionHypothesis =>
      refine .bind (agrees previous value) fun holds _ => ?_
      split
      · exact inductionHypothesis value
      · exact .pure trivial

theorem agree_extreme
    (relation : Comparison) {best : Value} {values : List Value}
    (within : best.Within pact.bounds) (valuesWithin : AllWithin pact.bounds values) :
    Agree pact (Within pact.bounds) fun _ => extreme relation best values := by
  induction values generalizing best with
  | nil => exact .pure within
  | cons value rest inductionHypothesis =>
      refine .bind (.ofExcept fun _ _ => trivial) fun holds (_ : True) => ?_
      split
      · exact inductionHypothesis valuesWithin.1 valuesWithin.2
      · exact inductionHypothesis within valuesWithin.2

end Arithmetic

/-! ## Events -/

namespace Event

theorem membersWithin_put
    {bounds : Bounds} {members : List (String × Value)} {name : String} {value : Value}
    (within : MembersWithin bounds members) (valueWithin : value.Within bounds) :
    MembersWithin bounds (Entries.put (· == ·) name value members) := by
  induction members with
  | nil => exact ⟨valueWithin, trivial⟩
  | cons first rest inductionHypothesis =>
      obtain ⟨key, old⟩ := first
      rw [Entries.put]
      split
      · exact ⟨valueWithin, within.2⟩
      · exact ⟨within.1, inductionHypothesis within.2⟩

theorem membersWithin_erase
    {bounds : Bounds} {members : List (String × Value)} {name : String}
    (within : MembersWithin bounds members) :
    MembersWithin bounds (Entries.erase (· == ·) name members) := by
  induction members with
  | nil => exact within
  | cons first rest inductionHypothesis =>
      rw [Entries.erase]
      split
      · exact within.2
      · exact ⟨within.1, inductionHypothesis within.2⟩

theorem agree_members
    {entries : List (Value × Value)} {read : Entries String Value}
    (within : EntriesWithin pact.bounds entries) (readWithin : MembersWithin pact.bounds read) :
    Agree pact (MembersWithin pact.bounds) fun _ => members entries read := by
  induction entries generalizing read with
  | nil => exact .pure (membersWithin_erase readWithin)
  | cons entry rest inductionHypothesis =>
      obtain ⟨key, value⟩ := entry
      exact .bind (.display key) fun text _ =>
        inductionHypothesis within.2 (membersWithin_put readWithin within.1.2)

theorem agree_ofMap
    {kind data : Value}
    (kindWithin : kind.Within pact.bounds) (dataWithin : data.Within pact.bounds) :
    Agree pact (Within pact.bounds) fun _ => ofMap kind data := by
  unfold ofMap
  split
  · refine .bind (agree_members dataWithin.2 trivial) fun fields fieldsWithin => ?_
    split
    · exact .fail
    · exact .bind .newId fun _ _ => .pure ⟨kindWithin, fieldsWithin⟩
  · exact .fail

theorem agree_parseKind (value : Value) :
    Agree pact (fun _ => True) fun _ => parseKind value := by
  refine .bind (.display value) fun text _ => ?_
  split
  · exact .pure trivial
  · exact .bind (.shown value) fun _ _ => .fail

end Event

/-! ## Collections -/

namespace Collection

theorem entriesWithin_pairs
    {bounds : Bounds} {args : List Value} {pairs : List (Value × Value)}
    (within : AllWithin bounds args) (isPairs : pairs? args = some pairs) :
    EntriesWithin bounds pairs := by
  fun_induction pairs? args generalizing pairs with
  | case1 =>
      cases isPairs
      exact trivial
  | case2 => cases isPairs
  | case3 key value rest inductionHypothesis =>
      obtain ⟨later, isLater, rfl⟩ := Option.map_eq_some_iff.mp isPairs
      exact ⟨⟨within.1, within.2.1⟩, inductionHypothesis within.2.2 isLater⟩

theorem agree_hashMap
    {args : List Value} (within : AllWithin pact.bounds args) :
    Agree pact (Within pact.bounds) fun _ => hashMap args := by
  unfold hashMap
  split
  · exact .fail
  · have pairsWithin := entriesWithin_pairs within ‹_›
    have nothing : EntriesWithin pact.bounds [] := trivial
    refine .bind (.ofExcept fun entries isEntries => ?_) fun entries entriesWithin =>
      .newMap entriesWithin
    exact entriesWithin_of_putAll nothing pairsWithin isEntries

theorem agree_entriesOfPairs
    {pairs : List Value} {built : ValueEntries}
    (within : AllWithin pact.bounds pairs) (builtWithin : EntriesWithin pact.bounds built) :
    Agree pact (EntriesWithin pact.bounds) fun _ => entriesOfPairs pairs built := by
  induction pairs generalizing built with
  | nil => exact .pure builtWithin
  | cons pair rest inductionHypothesis =>
      refine .bind (Access.agree_items within.1) fun items itemsWithin => ?_
      split
      · refine .bind (.ofExcept fun next isNext => ?_) fun next nextWithin =>
          inductionHypothesis within.2 nextWithin
        exact entriesWithin_of_put builtWithin itemsWithin.1 itemsWithin.2.1 isNext
      · exact .fail

theorem agree_entriesOfEvent
    {event : Value} (calls : CallsAgree pact call) (within : event.Within pact.bounds) :
    Agree pact (EntriesWithin pact.bounds) fun side => entriesOfEvent (call side) event := by
  have plain : "keys" = "config" → pact.SameConfigs := fun same => absurd same (by decide)
  refine .bind (Access.agree_member? within plain) fun found foundWithin => ?_
  cases found with
  | none => exact .fail
  | some operation =>
      refine .bind (calls operation [] (foundWithin operation rfl) trivial) ?_
      intro result resultWithin
      refine .bind (.current resultWithin) fun keys keysWithin => ?_
      refine .bind (Access.agree_items keysWithin) fun items _ => ?_
      split
      · exact .pure trivial
      · exact .fail

theorem agree_entriesOf
    {value : Value} (calls : CallsAgree pact call) (within : value.Within pact.bounds) :
    Agree pact (EntriesWithin pact.bounds) fun side => entriesOf (call side) value := by
  have others : Agree pact (EntriesWithin pact.bounds) fun _ =>
      Access.items value >>= fun pairs => entriesOfPairs pairs [] :=
    .bind (Access.agree_items within) fun _ pairsWithin =>
      agree_entriesOfPairs pairsWithin trivial
  unfold entriesOf
  cases value with
  | nil => exact .pure trivial
  | map entries birth => exact .pure within.2
  | event id origin members => exact agree_entriesOfEvent calls within
  | _ => exact others

theorem agree_assoc
    {value : Value} {args : List Value} (calls : CallsAgree pact call)
    (within : value.Within pact.bounds) (argsWithin : AllWithin pact.bounds args) :
    Agree pact (Within pact.bounds) fun side => assoc (call side) value args := by
  unfold assoc
  cases isPairs : pairs? args with
  | none => exact .fail
  | some pairs =>
      have pairsWithin := entriesWithin_pairs argsWithin isPairs
      refine .bind (agree_entriesOf calls within) fun entries entriesWithin => ?_
      refine .bind (.ofExcept fun result isResult => ?_) fun _ resultWithin =>
        .newMap resultWithin
      exact entriesWithin_of_putAll entriesWithin pairsWithin isResult

theorem agree_dissoc
    {value : Value} {keys : List Value} (calls : CallsAgree pact call)
    (within : value.Within pact.bounds) :
    Agree pact (Within pact.bounds) fun side => dissoc (call side) value keys := by
  refine .bind (agree_entriesOf calls within) fun entries entriesWithin => ?_
  refine .bind (.ofExcept fun result isResult => ?_) fun _ resultWithin =>
    .newMap resultWithin
  exact entriesWithin_of_eraseAll entriesWithin isResult

theorem agree_contains (collection key : Value) :
    Agree pact (fun _ => True) fun _ => contains collection key := by
  unfold contains
  cases collection with
  | store id =>
      refine .get_bind fun heap _ => ?_
      simp only [Heap.entries_equip]
      exact .ofExcept fun _ _ => trivial
  | map entries birth => exact .ofExcept fun _ _ => trivial
  | nil => exact .pure trivial
  | list items birth => exact .pure trivial
  | _ =>
      simp only
      split
      · exact .pure trivial
      · exact .pure trivial
      · exact .fail

theorem agree_count
    {collection : Value} (within : collection.Within pact.bounds) :
    Agree pact (fun _ => True) fun _ => count collection := by
  unfold count
  split
  · exact .pure trivial
  · exact Access.agree_length within

theorem agree_first
    {collection : Value} (within : collection.Within pact.bounds) :
    Agree pact (Within pact.bounds) fun _ => first collection := by
  refine .bind Access.agree_isPresent fun present _ => ?_
  split
  · exact Access.agree_itemAt within
  · exact .pure trivial

theorem agree_second
    {collection : Value} (within : collection.Within pact.bounds) :
    Agree pact (Within pact.bounds) fun _ => second collection := by
  refine .bind (agree_count within) fun size _ => ?_
  split
  · exact Access.agree_itemAt within
  · exact .pure trivial

theorem agree_rest
    {collection : Value} (within : collection.Within pact.bounds) :
    Agree pact (Within pact.bounds) fun _ => rest collection := by
  refine .bind Access.agree_isPresent fun present _ => ?_
  split
  · exact .bind (Access.agree_itemsAfterFirst within) fun _ => .newList
  · exact .newList trivial

theorem agree_nth
    {collection index : Value} {default : Option Value}
    (within : collection.Within pact.bounds)
    (defaultWithin : SomeWithin pact.bounds default) :
    Agree pact (Within pact.bounds) fun _ => nth collection index default := by
  refine .bind ?inside fun inside (_ : True) => ?chosen
  case inside =>
    split
    · exact .pure trivial
    · refine .bind (.ofExcept fun _ _ => trivial) fun atMost (_ : True) => ?_
      split
      · exact .bind (Access.agree_length within) fun _ _ => .ofExcept fun _ _ => trivial
      · exact .pure trivial
  case chosen =>
    split
    · exact Access.agree_itemAt within
    · cases default with
      | some value => exact .pure (defaultWithin value rfl)
      | none => exact .bind (.display index) fun _ _ => .fail

theorem agree_conj
    {collection : Value} {items : List Value}
    (within : collection.Within pact.bounds) (itemsWithin : AllWithin pact.bounds items) :
    Agree pact (Within pact.bounds) fun _ => conj collection items :=
  .bind (Access.agree_itemsIfPresent within) fun _ foundWithin =>
    .newList (allWithin_append.mpr ⟨foundWithin, itemsWithin⟩)

theorem agree_listed
    {operation : String} {collection : Value} (calls : CallsAgree pact call)
    (within : collection.Within pact.bounds) (plain : operation ≠ "config") :
    Agree pact (Within pact.bounds) fun side => listed (call side) operation collection := by
  refine .bind Access.agree_isPresent fun present _ => ?_
  cases present with
  | false => exact .pure trivial
  | true =>
      refine .bind (Access.agree_callMember calls within trivial plain) ?_
      intro result resultWithin
      refine .bind (.current resultWithin) fun found foundWithin => ?_
      exact .bind (Access.agree_items foundWithin) fun _ => .newList

/-! ## Functions on collections -/

variable {function collection : Value}

theorem agree_mapItems
    (calls : CallsAgree pact call)
    (functionWithin : function.Within pact.bounds)
    (within : collection.Within pact.bounds) :
    Agree pact (Within pact.bounds) fun side =>
      mapItems (call side) function collection := by
  refine .bind (Access.agree_itemsIfPresent within) fun items itemsWithin => ?_
  have nothing : AllWithin pact.bounds [] := trivial
  refine .bind (Access.agree_overItems within itemsWithin nothing ?_) fun results fits =>
    .newList fits.reverse
  intro results item resultsWithin itemWithin
  exact .bind (calls function [item] functionWithin ⟨itemWithin, trivial⟩)
    fun value valueWithin => .pure ⟨valueWithin, resultsWithin⟩

theorem agree_filterItems
    (calls : CallsAgree pact call)
    (functionWithin : function.Within pact.bounds)
    (within : collection.Within pact.bounds) :
    Agree pact (Within pact.bounds) fun side =>
      filterItems (call side) function collection := by
  refine .bind (Access.agree_itemsIfPresent within) fun items itemsWithin => ?_
  have nothing : AllWithin pact.bounds [] := trivial
  refine .bind (Access.agree_overItems within itemsWithin nothing ?_) fun results fits =>
    .newList fits.reverse
  intro kept item keptWithin itemWithin
  refine .bind (calls function [item] functionWithin ⟨itemWithin, trivial⟩)
    fun value _ => .pure ?_
  by_cases holds : value.isTrue = true
  · simp only [if_pos holds]
    exact ⟨itemWithin, keptWithin⟩
  · simp only [if_neg holds]
    exact keptWithin

theorem agree_someItem
    (calls : CallsAgree pact call)
    (functionWithin : function.Within pact.bounds)
    (within : collection.Within pact.bounds) :
    Agree pact (Within pact.bounds) fun side =>
      someItem (call side) function collection := by
  refine .bind (Access.agree_itemsIfPresent within) fun items itemsWithin => ?_
  refine Access.agree_overItems within itemsWithin trivial ?_
  intro _ item _ itemWithin
  refine .bind (calls function [item] functionWithin ⟨itemWithin, trivial⟩)
    fun value valueWithin => .pure ?_
  by_cases holds : value.isTrue = true
  · simp only [if_pos holds]
    exact valueWithin
  · simp only [if_neg holds]
    exact trivial

theorem agree_combineStep
    {result item : Value} (calls : CallsAgree pact call)
    (functionWithin : function.Within pact.bounds)
    (resultWithin : result.Within pact.bounds) (itemWithin : item.Within pact.bounds) :
    Agree pact (Access.Progress.Fits (Within pact.bounds)) fun side =>
      combineStep (call side) function result item :=
  .bind (calls function [result, item] functionWithin ⟨resultWithin, itemWithin, trivial⟩)
    fun _ valueWithin => .pure valueWithin

theorem agree_reduce
    {args : List Value} (calls : CallsAgree pact call)
    (functionWithin : function.Within pact.bounds)
    (argsWithin : AllWithin pact.bounds args) :
    Agree pact (Within pact.bounds) fun side => reduce (call side) function args := by
  unfold reduce
  split
  · refine .bind (Access.agree_items argsWithin.1) fun items itemsWithin => ?_
    cases items with
    | nil => exact .fail
    | cons item rest =>
        exact Access.agree_goThrough argsWithin.1
          (fun _ _ => agree_combineStep calls functionWithin) _ _ itemsWithin.2 itemsWithin.1
  · refine .bind (Access.agree_items argsWithin.2.1) fun items itemsWithin => ?_
    exact Access.agree_overItems argsWithin.2.1 itemsWithin argsWithin.1
      fun _ _ => agree_combineStep calls functionWithin
  · exact .fail

theorem agree_apply
    {args : List Value} (calls : CallsAgree pact call)
    (functionWithin : function.Within pact.bounds)
    (argsWithin : AllWithin pact.bounds args) :
    Agree pact (Within pact.bounds) fun side => apply (call side) function args := by
  unfold apply
  cases isLast : args.getLast? with
  | none => exact calls function [] functionWithin trivial
  | some last =>
      have lastWithin := allWithin_iff.mp argsWithin last (List.mem_of_getLast? isLast)
      refine .bind (Access.agree_itemsIfPresent lastWithin) fun more moreWithin => ?_
      refine calls function _ functionWithin (allWithin_append.mpr ⟨?_, moreWithin⟩)
      exact argsWithin.sublist fun _ member => List.dropLast_subset args member

end Collection

/-! ## Devices -/

namespace Device

theorem agree_isInstance (lineage : Lineage) (kind value : Value) :
    Agree pact (fun _ => True) fun _ => isInstance lineage kind value := by
  unfold isInstance
  cases kind with
  | kind target => exact .pure trivial
  | _ => exact .bind (Event.agree_parseKind _) fun _ _ => .pure trivial

theorem agree_read
    {value : Value} {name : String} (calls : CallsAgree pact call)
    (within : value.Within pact.bounds) (plain : name ≠ "config") :
    Agree pact (Within pact.bounds) fun side => read (call side) value name := by
  refine .bind (Access.agree_member within fun same => absurd same plain) ?_
  intro found foundWithin
  split
  · exact calls found [] foundWithin trivial
  · exact .pure foundWithin

theorem agree_enumKeyword (value : Value) (allowed : List String) :
    Agree pact (Within pact.bounds) fun _ => enumKeyword value allowed := by
  unfold enumKeyword
  cases value with
  | constant name => exact .pure trivial
  | kind eventKind => exact .pure trivial
  | _ => exact .bind (.display _) fun _ _ => .pure trivial

theorem agree_trackSourceSlot
    {status : Value} (calls : CallsAgree pact call) (within : status.Within pact.bounds) :
    Agree pact (Within pact.bounds) fun side => trackSourceSlot (call side) status :=
  .bind (agree_read calls within (by decide)) fun value _ => agree_enumKeyword value _

theorem agree_trackType
    {status : Value} (calls : CallsAgree pact call) (within : status.Within pact.bounds) :
    Agree pact (Within pact.bounds) fun side => trackType (call side) status :=
  .bind (agree_read calls within (by decide)) fun value _ => agree_enumKeyword value _

theorem agree_lookup
    {collection key : Value} (calls : CallsAgree pact call)
    (within : collection.Within pact.bounds) (keyWithin : key.Within pact.bounds) :
    Agree pact (Within pact.bounds) fun side => lookup (call side) collection key :=
  .bind (Access.agree_lookup calls within keyWithin (someWithin_some trivial))
    fun _ foundWithin => .pure (within_getD_nil foundWithin)

theorem agree_trackMatches
    {status globals source number : Value} (calls : CallsAgree pact call)
    (statusWithin : status.Within pact.bounds) (globalsWithin : globals.Within pact.bounds)
    (sourceWithin : source.Within pact.bounds) (numberWithin : number.Within pact.bounds) :
    Agree pact (fun _ => True) fun side =>
      trackMatches (call side) status globals source number := by
  refine .bind (agree_lookup calls globalsWithin sourceWithin) fun media mediaWithin => ?_
  refine .bind (agree_read calls statusWithin (by decide)) fun player playerWithin => ?_
  refine .bind (agree_lookup calls mediaWithin trivial) fun mounted mountedWithin => ?_
  refine .bind (.equal playerWithin mountedWithin) fun samePlayer _ => ?_
  split
  · refine .bind (agree_trackSourceSlot calls statusWithin) fun slot slotWithin => ?_
    refine .bind (agree_lookup calls mediaWithin trivial) fun mountedSlot mountedWithin => ?_
    refine .bind (.equal slotWithin mountedWithin) fun sameSlot _ => ?_
    split
    · refine .bind (agree_read calls statusWithin (by decide)) fun loaded loadedWithin => ?_
      exact .equal loadedWithin numberWithin
    · exact .pure trivial
  · exact .pure trivial

theorem agree_publish
    {locals description : Value} (calls : CallsAgree pact call)
    (localsWithin : locals.Within pact.bounds)
    (descriptionWithin : description.Within pact.bounds) :
    Agree pact (fun _ => True) fun side => publish (call side) locals description := by
  have argsWithin : AllWithin pact.bounds [descriptionKey, description] :=
    ⟨trivial, descriptionWithin, trivial⟩
  exact .bind (Access.agree_callMember calls localsWithin argsWithin (by decide))
    fun _ _ => .pure trivial

theorem agree_describe
    {locals describer track : Value} (calls : CallsAgree pact call)
    (localsWithin : locals.Within pact.bounds)
    (describerWithin : describer.Within pact.bounds)
    (trackWithin : track.Within pact.bounds) :
    Agree pact (fun _ => True) fun side => describe (call side) locals describer track := by
  have plain : "set" = "config" → pact.SameConfigs := fun same => absurd same (by decide)
  refine .bind (Access.agree_member localsWithin plain) fun operation operationWithin => ?_
  refine .bind (calls describer [track] describerWithin ⟨trackWithin, trivial⟩) ?_
  intro description descriptionWithin
  exact .bind (calls operation _ operationWithin ⟨trivial, descriptionWithin, trivial⟩)
    fun _ _ => .pure trivial

theorem agree_withdraw
    {locals : Value} (calls : CallsAgree pact call)
    (localsWithin : locals.Within pact.bounds) :
    Agree pact (fun _ => True) fun side => withdraw (call side) locals := by
  have argsWithin : AllWithin pact.bounds [descriptionKey] := ⟨trivial, trivial⟩
  exact .bind (Access.agree_callMember calls localsWithin argsWithin (by decide))
    fun _ _ => .pure trivial

theorem agree_findTrack
    {status locals globals source describer : Value} (calls : CallsAgree pact call)
    (statusWithin : status.Within pact.bounds) (localsWithin : locals.Within pact.bounds)
    (globalsWithin : globals.Within pact.bounds) (sourceWithin : source.Within pact.bounds)
    (describerWithin : describer.Within pact.bounds) :
    Agree pact (Within pact.bounds) fun side =>
      findTrack (call side) status locals globals source describer := by
  refine .bind (agree_read calls statusWithin (by decide)) fun player playerWithin => ?_
  refine .bind (agree_trackSourceSlot calls statusWithin) fun slot slotWithin => ?_
  refine .bind (agree_read calls statusWithin (by decide)) fun number numberWithin => ?_
  have pathWithin : (Value.tuple [source, player, slot, number]).Within pact.bounds :=
    ⟨sourceWithin, playerWithin, slotWithin, numberWithin, trivial⟩
  refine .bind (Access.agree_lookupPath calls globalsWithin pathWithin) ?_
  intro found foundWithin
  have trackWithin := within_getD_nil foundWithin
  split
  · exact .pure trackWithin
  · exact .bind (agree_withdraw calls localsWithin) fun _ _ => .pure trackWithin
  · by_cases isFound : (found.getD .nil).isTrue = true
    · simp only [if_pos isFound]
      exact .bind (agree_describe calls localsWithin describerWithin trackWithin)
        fun _ _ => .pure trackWithin
    · simp only [if_neg isFound]
      exact .bind (agree_withdraw calls localsWithin) fun _ _ => .pure trackWithin

end Device

/-! ## Operations of values -/

namespace Member

theorem agree_callOnMap
    {entries : ValueEntries} {operation : String} {args : List Value}
    (within : EntriesWithin pact.bounds entries)
    (argsWithin : AllWithin pact.bounds args) :
    Agree pact (Within pact.bounds) fun _ => callOnMap entries operation args := by
  unfold callOnMap
  split
  · exact .bind (.ofExcept fun _ isFound => within_of_get within isFound)
      fun _ foundWithin => .pure (within_getD_nil foundWithin)
  · exact .bind (.ofExcept fun _ isFound => within_of_get within isFound)
      fun _ foundWithin => .pure (within_getD foundWithin argsWithin.2.1)
  · exact .newList (allWithin_keys within)
  · exact .newList (allWithin_values within)
  · exact .fail

theorem mem_of_withoutFirst
    {value : Value} {items left : List Value} (isLeft : withoutFirst? value items = some left) :
    ∀ item ∈ left, item ∈ items := by
  induction items generalizing left with
  | nil => cases isLeft
  | cons item rest inductionHypothesis =>
      rw [withoutFirst?] at isLeft
      split at isLeft
      · cases isLeft
        exact fun each member => List.mem_cons_of_mem item member
      · obtain ⟨later, isLater, rfl⟩ := Option.map_eq_some_iff.mp isLeft
        intro each member
        rcases List.mem_cons.mp member with rfl | member
        · exact List.mem_cons_self
        · exact List.mem_cons_of_mem item (inductionHypothesis isLater each member)

theorem agree_callOnList
    {items args : List Value} {birth : Nat}
    (lists : pact.bounds.Lists birth items) (losable : birth ≠ 0 → pact.bounds.losable birth)
    (within : AllWithin pact.bounds items) :
    Agree pact (Within pact.bounds) fun _ => callOnList items birth args := by
  unfold callOnList
  split
  · split
    · rename_i left isLeft
      have part := mem_of_withoutFirst isLeft
      refine .bind (.modify (fun heap evaluators => heap.leave_equip evaluators birth left)
        fun heap heapWithin =>
          heapWithin.leave (lists.sublist part) losable (within.sublist part)) ?_
      exact fun _ _ => .pure trivial
    · exact .fail
  · exact .fail

theorem agree_callOnScope
    {scope : Nat} {operation : String} {args : List Value}
    (within : (Value.scope scope).Within pact.bounds)
    (argsWithin : AllWithin pact.bounds args) :
    Agree pact (Within pact.bounds) fun _ => callOnScope scope operation args := by
  obtain ⟨known, escapes⟩ := within
  unfold callOnScope
  split
  · exact .lookup known
  · exact .bind (.define known argsWithin.1 argsWithin.2.1) fun _ _ => .pure trivial
  · exact .bind (.childScope known trivial) fun _ scopeKnown => .pure ⟨scopeKnown, escapes⟩
  · exact .bind (.childScope known trivial) fun _ scopeKnown => .pure ⟨scopeKnown, escapes⟩
  · rename_i holder _
    have taken : Agree pact (Variables.Within pact.bounds) fun _ =>
        Action.change fun heap => heap.variablesOf holder :=
      .change (fun heap evaluators => heap.variablesOf_equip evaluators holder)
        fun heap heapWithin => heapWithin.variablesOf argsWithin.1 escapes
    refine .bind taken fun vars varsWithin => ?_
    exact .bind (.scopeInside known varsWithin) fun _ scopeKnown => .pure ⟨scopeKnown, escapes⟩
  · exact .fail

theorem agree_call
    {receiver : Value} {operation : String} {args : List Value}
    (calls : CallsAgree pact call)
    (within : receiver.Within pact.bounds) (argsWithin : AllWithin pact.bounds args)
    (losable : ∀ items birth, receiver = .list items birth → birth ≠ 0 →
      pact.bounds.losable birth) :
    Agree pact (Within pact.bounds) fun side =>
      Member.call (call side) receiver operation args := by
  unfold Member.call
  cases receiver with
  | store id => exact Store.agree_perform calls within argsWithin
  | map entries birth => exact agree_callOnMap within.2 argsWithin
  | list items birth => exact agree_callOnList within.1 (losable items birth rfl) within.2
  | kind eventKind =>
      simp only
      split
      · exact .bind (Event.agree_parseKind _) fun _ _ => .pure trivial
      · refine .pure ?_
        cases Event.kind? _ <;> exact trivial
      · exact .fail
  | event id origin members =>
      simp only
      split
      · exact Event.agree_ofMap argsWithin.1 argsWithin.2.1
      · exact .fail
  | symbol name =>
      simp only
      split
      · exact .pure trivial
      · exact .fail
  | scope id => exact agree_callOnScope within argsWithin
  | settings config =>
      simp only
      split
      · refine .newList (allWithin_iff.mpr fun item member => ?_)
        obtain ⟨each, -, rfl⟩ := List.mem_map.mp member
        exact trivial
      · exact .fail
  | _ => exact .fail

end Member

/-! ## Calls of built-in functions -/

namespace Call

theorem agree_hasParity
    (remainder : Int) {value : Value} (within : value.Within pact.bounds) :
    Agree pact (Within pact.bounds) fun _ => hasParity remainder value :=
  .bind (Arithmetic.agree_modulo within _) fun _ _ => .pure trivial

theorem agree_comparesToZero (relation : Comparison) (value : Value) :
    Agree pact (Within pact.bounds) fun _ => comparesToZero relation value :=
  .bind (.ofExcept fun _ _ => trivial) fun _ (_ : True) => .pure trivial

theorem agree_ordered (relation : Comparison) (args : List Value) :
    Agree pact (Within pact.bounds) fun _ => ordered relation args := by
  unfold ordered
  split
  · exact .fail
  · refine .bind (Arithmetic.agree_eachHolds ?_ _ _) fun _ _ => .pure trivial
    exact fun _ _ => .ofExcept fun _ _ => trivial

theorem agree_allEqual (args : List Value) :
    Agree pact (fun _ => True) fun _ => allEqual args := by
  unfold allEqual
  split
  · exact .fail
  · exact Arithmetic.agree_eachHolds (fun _ _ => .pure trivial) _ _

theorem agree_extremeOf
    (relation : Comparison) {args : List Value} (within : AllWithin pact.bounds args) :
    Agree pact (Within pact.bounds) fun _ => extremeOf relation args := by
  unfold extremeOf
  split
  · exact .fail
  · refine .bind (Access.agree_items within.1) fun items itemsWithin => ?_
    split
    · exact .fail
    · exact Arithmetic.agree_extreme relation itemsWithin.1 itemsWithin.2
  · exact Arithmetic.agree_extreme relation within.1 within.2

theorem agree_joinedText (values : List Value) :
    Agree pact (fun _ => True) fun _ => joinedText values := by
  induction values with
  | nil => exact .pure trivial
  | cons value rest inductionHypothesis =>
      have text : Agree pact (fun _ => True) fun _ =>
          Action.reading fun heap => heap.textPart value :=
        .reading (fun _ _ => by rw [Heap.textPart_equip]) fun _ _ _ _ => trivial
      exact .bind text fun _ _ => .bind inductionHypothesis fun _ _ => .pure trivial

theorem agree_performArithmetic
    {function : Builtin} {args : List Value} (within : AllWithin pact.bounds args) :
    Agree pact (Within pact.bounds) fun _ => performArithmetic function args := by
  unfold performArithmetic
  split
  · exact Arithmetic.agree_chain (fun _ _ _ _ => Arithmetic.agree_combine _ _ _ _) trivial within
  · exact Arithmetic.agree_negate _
  · exact Arithmetic.agree_chain (fun _ _ _ _ => Arithmetic.agree_combine _ _ _ _) within.1
      within.2
  · exact Arithmetic.agree_chain (fun _ _ => Arithmetic.agree_multiply) trivial within
  · exact Arithmetic.agree_divide _ _
  · exact Arithmetic.agree_chain (fun _ _ _ _ => Arithmetic.agree_divide _ _) within.1 within.2
  · exact .bind (Arithmetic.agree_quotient _ _) fun _ _ => Arithmetic.agree_integerPart _
  · exact Arithmetic.agree_modulo within.1 _
  · exact Arithmetic.agree_combine _ _ _ _
  · exact Arithmetic.agree_combine _ _ _ _
  · exact agree_extremeOf _ within
  · exact agree_extremeOf _ within
  · exact Arithmetic.agree_absolute _
  · exact .fail

theorem agree_performTest
    {function : Builtin} {args : List Value} (within : AllWithin pact.bounds args) :
    Agree pact (Within pact.bounds) fun _ => performTest function args := by
  unfold performTest
  split
  · exact .bind (agree_allEqual args) fun _ _ => .pure trivial
  · exact .bind (agree_allEqual args) fun _ _ => .pure trivial
  all_goals first
    | exact .pure trivial
    | exact .fail
    | exact agree_ordered _ _
    | exact agree_comparesToZero _ _
    | exact agree_hasParity _ within.1

theorem agree_performText
    {function : Builtin} {args : List Value} (within : AllWithin pact.bounds args) :
    Agree pact (Within pact.bounds) fun _ => performText function args := by
  unfold performText
  split
  · exact .bind (agree_joinedText args) fun _ _ => .pure trivial
  · split
    · exact Arithmetic.agree_fillTemplate within.1 _ _
    · exact .fail
  · exact .bind (.display _) fun _ _ => .pure trivial
  · exact .bind (.display _) fun _ _ => .pure trivial
  · exact .fail

theorem agree_performCollection
    {function : Builtin} {args : List Value} (calls : CallsAgree pact call)
    (within : AllWithin pact.bounds args) :
    Agree pact (Within pact.bounds) fun side =>
      performCollection (call side) function args := by
  unfold performCollection
  split
  · exact .bind (Access.agree_lookup calls within.1 within.2.1 (someWithin_some trivial))
      fun _ foundWithin => .pure (within_getD_nil foundWithin)
  · exact .bind
      (Access.agree_lookup calls within.1 within.2.1 (someWithin_some within.2.2.1))
      fun _ foundWithin => .pure (within_getD foundWithin within.2.2.1)
  · exact .bind (Access.agree_lookupPath calls within.1 within.2.1)
      fun _ foundWithin => .pure (within_getD_nil foundWithin)
  · exact .bind (Access.agree_lookupPath calls within.1 within.2.1)
      fun _ foundWithin => .pure (within_getD foundWithin within.2.2.1)
  · exact .newList within
  · exact Collection.agree_hashMap within
  · exact Collection.agree_assoc calls within.1 within.2
  · exact Collection.agree_dissoc calls within.1
  · exact .bind (Collection.agree_contains _ _) fun _ _ => .pure trivial
  · exact .bind (Collection.agree_count within.1) fun _ _ => .pure trivial
  · exact .bind (Collection.agree_count within.1) fun _ _ => .pure trivial
  · exact Collection.agree_first within.1
  · exact Collection.agree_second within.1
  · exact Collection.agree_rest within.1
  · refine Collection.agree_nth within.1 fun value isHead => ?_
    exact allWithin_iff.mp within.2.2 value (List.mem_of_head? isHead)
  · exact Collection.agree_conj within.1 within.2
  · exact Collection.agree_listed calls within.1 (by decide)
  · exact Collection.agree_listed calls within.1 (by decide)
  · exact Collection.agree_mapItems calls within.1 within.2.1
  · exact Collection.agree_filterItems calls within.1 within.2.1
  · exact Collection.agree_someItem calls within.1 within.2.1
  · exact Collection.agree_reduce calls within.1 within.2
  · exact Collection.agree_apply calls within.1 within.2
  · exact .fail

theorem agree_performDevice
    {function : Builtin} {args : List Value} (calls : CallsAgree pact call)
    (within : AllWithin pact.bounds args) :
    Agree pact (Within pact.bounds) fun side => performDevice (call side) function args := by
  unfold performDevice
  split
  · exact .bind (Device.agree_isInstance _ _ _) fun _ _ => .pure trivial
  · exact Arithmetic.agree_divide _ _
  · exact .bind (Arithmetic.agree_combine _ _ _ _) fun _ deviationWithin =>
      .bind (Arithmetic.agree_multiply deviationWithin trivial) fun _ _ =>
        Arithmetic.agree_divide _ _
  · exact Device.agree_trackSourceSlot calls within.1
  · exact Device.agree_trackType calls within.1
  · exact .bind (Device.agree_trackMatches calls within.1 within.2.1 within.2.2.1
      within.2.2.2.1) fun _ _ => .pure trivial
  · exact Device.agree_findTrack calls within.1 within.2.1 within.2.2.1 within.2.2.2.1
      trivial
  · exact Device.agree_findTrack calls within.1 within.2.1 within.2.2.1 within.2.2.2.1
      within.2.2.2.2.1
  · exact Access.agree_callMember calls within.1 ⟨within.2.1, trivial, trivial⟩ (by decide)
  · exact Access.agree_callMember calls within.1 within.2 (by decide)
  · exact Access.agree_callMember calls within.1 within.2 (by decide)
  · exact Access.agree_callMember calls within.1 within.2 (by decide)
  · exact Access.agree_callMember calls within.1 within.2 (by decide)
  · exact Access.agree_callMember calls within.1 within.2 (by decide)
  · exact .bind (Device.agree_publish calls within.1 within.2.1) fun _ _ =>
      .pure within.2.1
  · exact .fail

theorem agree_perform
    {function : Builtin} {args : List Value} (calls : CallsAgree pact call)
    (within : AllWithin pact.bounds args) :
    Agree pact (Within pact.bounds) fun side => perform (call side) function args := by
  unfold perform
  split
  · exact agree_performArithmetic within
  · exact agree_performTest within
  · exact agree_performText within
  · exact agree_performCollection calls within
  · exact agree_performDevice calls within

end Call

end CueScript
