import CueScript.Proofs.Parting.Access

/-!
# Built-in functions where scopes part

Built-in functions and the operations of values do not depend on scopes that values do not
lead to, if what they call does not.
-/

namespace CueScript

open Value

variable {terms : Terms} {parting : Parting terms} {call : Side → Caller}

namespace Arithmetic

/-! ## Arithmetic -/

theorem quiet_operands (a b : Value) : Quiet parting (fun _ => True) (operands a b) := by
  unfold operands
  split
  · exact .pure trivial
  · exact .fail

theorem quiet_toDouble (x : Numeric) : Quiet parting (fun _ => True) (toDouble x) := by
  unfold toDouble
  split
  · exact .pure trivial
  · exact .fail

theorem quiet_combine
    (exact' : Int → Int → Int) (rounded : Binary64 → Binary64 → Binary64) (a b : Value) :
    Quiet parting parting.Knows (combine exact' rounded a b) := by
  refine .bind (quiet_operands a b) fun numbers _ => ?_
  split
  · exact .pure trivial
  · exact .bind (quiet_toDouble _) fun _ _ => .bind (quiet_toDouble _) fun _ _ => .newFloat _

theorem quiet_negate (a : Value) : Quiet parting parting.Knows (negate a) := by
  unfold negate
  split
  · exact .pure trivial
  · exact .newFloat _
  · exact .fail

theorem quiet_absolute (a : Value) : Quiet parting parting.Knows (absolute a) := by
  unfold absolute
  split
  · exact .pure trivial
  · exact .newFloat _
  · exact .fail

theorem quiet_repetitions (length : Nat) (count : Int) (tooLong : Failure) :
    Quiet parting (fun _ => True) (repetitions length count tooLong) := by
  unfold repetitions
  split
  · exact .fail
  · split
    · exact .fail
    · split
      · exact .fail
      · exact .pure trivial

theorem quiet_repeated (value : Value) (count : Int) : parting.Knows value →
    Quiet parting parting.Knows
      (match value.toText?, value.toTuple?, value with
      | some text, _, _ => do
          let times ← repetitions text.length count .tooLarge
          return .str (String.ofList (repeatItems text.toList times))
      | none, some items, _ => do
          let times ← repetitions items.length count .outOfMemory
          return .tuple (repeatItems items times)
      | none, none, .list items _ => do
          let times ← repetitions items.length count .outOfMemory
          Action.newList (repeatItems items times)
      | none, none, _ => Action.fail .wrongType) := by
  intro known
  split
  · exact .bind (quiet_repetitions _ _ _) fun _ _ => .pure trivial
  · have itemsKnown := within_of_toTuple known ‹_›
    exact .bind (quiet_repetitions _ _ _) fun times _ =>
      .pure (allWithin_repeatItems itemsKnown times)
  · exact .bind (quiet_repetitions _ _ _) fun times _ =>
      .newList (allWithin_repeatItems known.2 times)
  · exact .fail

theorem quiet_multiply
    {a b : Value} (aKnown : parting.Knows a) (bKnown : parting.Knows b) :
    Quiet parting parting.Knows (multiply a b) := by
  unfold multiply
  split
  · exact .pure trivial
  · split
    · exact quiet_combine _ _ _ _
    · exact quiet_repeated b _ bKnown
  · split
    · exact quiet_combine _ _ _ _
    · exact quiet_repeated a _ aKnown
  · exact quiet_combine _ _ _ _

theorem quiet_quotient (a b : Value) : Quiet parting (fun _ => True) (quotient a b) := by
  refine .bind (quiet_operands a b) fun numbers _ => ?_
  split
  · unfold quotientOfInts
    split
    · exact .fail
    · split
      · exact .fail
      · exact .pure trivial
  · refine .bind (quiet_toDouble _) fun _ _ => .bind (quiet_toDouble _) fun _ _ => ?_
    split
    · exact .fail
    · exact .pure trivial

theorem quiet_divide (a b : Value) : Quiet parting parting.Knows (divide a b) :=
  .bind (quiet_quotient a b) fun _ _ => .newFloat _

theorem quiet_integerPart (x : Binary64) : Quiet parting parting.Knows (integerPart x) := by
  unfold integerPart
  split
  · exact .pure trivial
  · exact .fail
  · exact .fail

theorem quiet_fillTemplate
    {template : Value} (known : parting.Knows template) (text : String)
    (arguments : Template.Arguments) :
    Quiet parting parting.Knows (fillTemplate template text arguments) := by
  have filled : Quiet parting (fun _ => True)
      (Action.reading fun heap => Template.fill ⟨heap.display, heap.shown⟩ text arguments) :=
    .reading (fun _ _ => by rw [Heap.display_rescope, Heap.shown_rescope]) fun _ _ _ _ => trivial
  refine .bind filled fun result _ => ?_
  split
  · exact .pure trivial
  · exact .pure known

theorem quiet_modulo
    {a : Value} (known : parting.Knows a) (b : Value) :
    Quiet parting parting.Knows (modulo a b) := by
  unfold modulo
  split
  · exact quiet_fillTemplate known _ _
  · refine .bind (quiet_operands a b) fun numbers _ => ?_
    split
    · split
      · exact .fail
      · exact .pure trivial
    · refine .bind (quiet_toDouble _) fun _ _ => .bind (quiet_toDouble _) fun _ _ => ?_
      split
      · exact .fail
      · exact .newFloat _

theorem quiet_chain
    {operation : Value → Value → Action Value}
    (quiet : ∀ a b, parting.Knows a → parting.Knows b →
      Quiet parting parting.Knows (operation a b))
    {result : Value} {values : List Value}
    (known : parting.Knows result) (valuesKnown : parting.KnowsAll values) :
    Quiet parting parting.Knows (chain operation result values) := by
  induction values generalizing result with
  | nil => exact .pure known
  | cons value rest inductionHypothesis =>
      exact .bind (quiet result value known valuesKnown.1) fun next nextKnown =>
        inductionHypothesis nextKnown valuesKnown.2

theorem quiet_eachHolds
    {relation : Value → Value → Action Bool}
    (quiet : ∀ a b, Quiet parting (fun _ => True) (relation a b))
    (previous : Value) (values : List Value) :
    Quiet parting (fun _ => True) (eachHolds relation previous values) := by
  induction values generalizing previous with
  | nil => exact .pure trivial
  | cons value rest inductionHypothesis =>
      refine .bind (quiet previous value) fun holds _ => ?_
      split
      · exact inductionHypothesis value
      · exact .pure trivial

theorem quiet_extreme
    (relation : Comparison) {best : Value} {values : List Value}
    (known : parting.Knows best) (valuesKnown : parting.KnowsAll values) :
    Quiet parting parting.Knows (extreme relation best values) := by
  induction values generalizing best with
  | nil => exact .pure known
  | cons value rest inductionHypothesis =>
      refine .bind (.ofExcept fun _ _ => trivial) fun holds (_ : True) => ?_
      split
      · exact inductionHypothesis valuesKnown.1 valuesKnown.2
      · exact inductionHypothesis known valuesKnown.2

end Arithmetic

/-! ## Events -/

namespace Event

theorem quiet_members
    {entries : List (Value × Value)} {read : Entries String Value}
    (known : EntriesWithin parting.bounds entries)
    (readKnown : MembersWithin parting.bounds read) :
    Quiet parting (MembersWithin parting.bounds) (members entries read) := by
  induction entries generalizing read with
  | nil => exact .pure (membersWithin_erase readKnown)
  | cons entry rest inductionHypothesis =>
      obtain ⟨key, value⟩ := entry
      exact .bind (.display key) fun text _ =>
        inductionHypothesis known.2 (membersWithin_put readKnown known.1.2)

theorem quiet_ofMap
    {kind data : Value} (kindKnown : parting.Knows kind) (dataKnown : parting.Knows data) :
    Quiet parting parting.Knows (ofMap kind data) := by
  unfold ofMap
  split
  · refine .bind (quiet_members dataKnown.2 trivial) fun fields fieldsKnown => ?_
    split
    · exact .fail
    · exact .bind .newId fun _ _ => .pure ⟨kindKnown, fieldsKnown⟩
  · exact .fail

theorem quiet_parseKind (value : Value) :
    Quiet parting (fun _ => True) (parseKind value) := by
  refine .bind (.display value) fun text _ => ?_
  split
  · exact .pure trivial
  · exact .bind (.shown value) fun _ _ => .fail

end Event

/-! ## Collections -/

namespace Collection

theorem quiet_hashMap
    {args : List Value} (known : parting.KnowsAll args) :
    Quiet parting parting.Knows (hashMap args) := by
  unfold hashMap
  split
  · exact .fail
  · have pairsKnown := entriesWithin_pairs known ‹_›
    have nothing : EntriesWithin parting.bounds [] := trivial
    refine .bind (.ofExcept fun entries isEntries => ?_) fun entries entriesKnown =>
      .newMap entriesKnown
    exact entriesWithin_of_putAll nothing pairsKnown isEntries

theorem quiet_entriesOfPairs
    {pairs : List Value} {built : ValueEntries}
    (known : parting.KnowsAll pairs) (builtKnown : EntriesWithin parting.bounds built) :
    Quiet parting (EntriesWithin parting.bounds) (entriesOfPairs pairs built) := by
  induction pairs generalizing built with
  | nil => exact .pure builtKnown
  | cons pair rest inductionHypothesis =>
      refine .bind (Access.quiet_items known.1) fun items itemsKnown => ?_
      split
      · refine .bind (.ofExcept fun next isNext => ?_) fun next nextKnown =>
          inductionHypothesis known.2 nextKnown
        exact entriesWithin_of_put builtKnown itemsKnown.1 itemsKnown.2.1 isNext
      · exact .fail

theorem alongside_entriesOfEvent
    {event : Value} (calls : CallsAlongside parting call) (known : parting.Knows event) :
    Alongside parting (fun later => EntriesWithin later.bounds) fun side =>
      entriesOfEvent (call side) event := by
  refine .after (Access.quiet_member? known) fun found foundKnown => ?_
  cases found with
  | none => exact Quiet.alongside .fail
  | some operation =>
      refine .bind (calls.here (foundKnown operation rfl) trivial) ?_
      intro later result _ resultKnown
      refine Quiet.alongside (.bind (.current resultKnown) fun keys keysKnown => ?_)
      refine .bind (Access.quiet_items keysKnown) fun items _ => ?_
      split
      · exact .pure trivial
      · exact .fail

theorem alongside_entriesOf
    {value : Value} (calls : CallsAlongside parting call) (known : parting.Knows value) :
    Alongside parting (fun later => EntriesWithin later.bounds) fun side =>
      entriesOf (call side) value := by
  have others : Alongside parting (fun later => EntriesWithin later.bounds) fun _ =>
      Access.items value >>= fun pairs => entriesOfPairs pairs [] :=
    Quiet.alongside (.bind (Access.quiet_items known) fun _ pairsKnown =>
      quiet_entriesOfPairs pairsKnown trivial)
  unfold entriesOf
  cases value with
  | nil => exact Quiet.alongside (.pure trivial)
  | map entries birth => exact Quiet.alongside (.pure known.2)
  | event id origin members => exact alongside_entriesOfEvent calls known
  | _ => exact others

theorem alongside_assoc
    {value : Value} {args : List Value} (calls : CallsAlongside parting call)
    (known : parting.Knows value) (argsKnown : parting.KnowsAll args) :
    Alongside parting Parting.Knows fun side => assoc (call side) value args := by
  unfold assoc
  cases isPairs : pairs? args with
  | none => exact Quiet.alongside .fail
  | some pairs =>
      have pairsKnown := entriesWithin_pairs argsKnown isPairs
      refine .bind (alongside_entriesOf calls known) fun later entries becomes entriesKnown => ?_
      refine Quiet.alongside (.bind (.ofExcept fun result isResult => ?_) fun _ resultKnown =>
        .newMap resultKnown)
      exact entriesWithin_of_putAll entriesKnown (becomes.knowsEntries pairsKnown) isResult

theorem alongside_dissoc
    {value : Value} {keys : List Value} (calls : CallsAlongside parting call)
    (known : parting.Knows value) :
    Alongside parting Parting.Knows fun side => dissoc (call side) value keys := by
  refine .bind (alongside_entriesOf calls known) fun later entries _ entriesKnown => ?_
  refine Quiet.alongside (.bind (.ofExcept fun result isResult => ?_) fun _ resultKnown =>
    .newMap resultKnown)
  exact entriesWithin_of_eraseAll entriesKnown isResult

theorem quiet_contains (collection key : Value) :
    Quiet parting (fun _ => True) (contains collection key) := by
  unfold contains
  cases collection with
  | store id =>
      exact .get_bind (fun _ _ => by rw [Heap.entries_rescope]) fun _ _ =>
        .ofExcept fun _ _ => trivial
  | map entries birth => exact .ofExcept fun _ _ => trivial
  | nil => exact .pure trivial
  | list items birth => exact .pure trivial
  | _ =>
      simp only
      split
      · exact .pure trivial
      · exact .pure trivial
      · exact .fail

theorem quiet_count
    {collection : Value} (known : parting.Knows collection) :
    Quiet parting (fun _ => True) (count collection) := by
  unfold count
  split
  · exact .pure trivial
  · exact Access.quiet_length known

theorem quiet_first
    {collection : Value} (known : parting.Knows collection) :
    Quiet parting parting.Knows (first collection) := by
  refine .bind (Access.quiet_isPresent collection) fun present _ => ?_
  split
  · exact Access.quiet_itemAt known
  · exact .pure trivial

theorem quiet_second
    {collection : Value} (known : parting.Knows collection) :
    Quiet parting parting.Knows (second collection) := by
  refine .bind (quiet_count known) fun size _ => ?_
  split
  · exact Access.quiet_itemAt known
  · exact .pure trivial

theorem quiet_rest
    {collection : Value} (known : parting.Knows collection) :
    Quiet parting parting.Knows (rest collection) := by
  refine .bind (Access.quiet_isPresent collection) fun present _ => ?_
  split
  · exact .bind (Access.quiet_itemsAfterFirst known) fun _ => .newList
  · exact .newList trivial

theorem quiet_nth
    {collection index : Value} {default : Option Value}
    (known : parting.Knows collection) (defaultKnown : parting.KnowsSome default) :
    Quiet parting parting.Knows (nth collection index default) := by
  refine .bind ?inside fun inside (_ : True) => ?chosen
  case inside =>
    split
    · exact .pure trivial
    · refine .bind (.ofExcept fun _ _ => trivial) fun atMost (_ : True) => ?_
      split
      · exact .bind (Access.quiet_length known) fun _ _ => .ofExcept fun _ _ => trivial
      · exact .pure trivial
  case chosen =>
    split
    · exact Access.quiet_itemAt known
    · cases default with
      | some value => exact .pure (defaultKnown value rfl)
      | none => exact .bind (.display index) fun _ _ => .fail

theorem quiet_conj
    {collection : Value} {items : List Value}
    (known : parting.Knows collection) (itemsKnown : parting.KnowsAll items) :
    Quiet parting parting.Knows (conj collection items) :=
  .bind (Access.quiet_itemsIfPresent known) fun _ foundKnown =>
    .newList (allWithin_append.mpr ⟨foundKnown, itemsKnown⟩)

theorem alongside_listed
    {operation : String} {collection : Value} (calls : CallsAlongside parting call)
    (known : parting.Knows collection) :
    Alongside parting Parting.Knows fun side => listed (call side) operation collection := by
  refine .after (Access.quiet_isPresent collection) fun present _ => ?_
  cases present with
  | false => exact Quiet.alongside (.pure trivial)
  | true =>
      refine .bind (Access.alongside_callMember calls known trivial) ?_
      intro later result _ resultKnown
      exact Quiet.alongside (.bind (.current resultKnown) fun found foundKnown =>
        .bind (Access.quiet_items foundKnown) fun _ => .newList)

/-! ## Functions on collections -/

variable {function collection : Value}

theorem alongside_mapItems
    (calls : CallsAlongside parting call)
    (functionKnown : parting.Knows function) (known : parting.Knows collection) :
    Alongside parting Parting.Knows fun side => mapItems (call side) function collection := by
  refine .after (Access.quiet_itemsIfPresent known) fun items itemsKnown => ?_
  have steps : Access.StepsAlongside parting Parting.KnowsAll fun side results item => do
      let value ← call side function [item]
      return .more (value :: results) := by
    intro later becomes results item resultsKnown itemKnown
    refine .bind ((calls.later becomes).here (becomes.knows functionKnown)
      ⟨itemKnown, trivial⟩) fun last value further valueKnown => ?_
    exact Quiet.alongside (.pure ⟨valueKnown, further.knowsAll resultsKnown⟩)
  exact .bind (Access.alongside_overItems collection itemsKnown trivial steps)
    fun later results _ resultsKnown => Quiet.alongside (.newList resultsKnown.reverse)

theorem alongside_filterItems
    (calls : CallsAlongside parting call)
    (functionKnown : parting.Knows function) (known : parting.Knows collection) :
    Alongside parting Parting.Knows fun side =>
      filterItems (call side) function collection := by
  refine .after (Access.quiet_itemsIfPresent known) fun items itemsKnown => ?_
  have steps : Access.StepsAlongside parting Parting.KnowsAll fun side kept item => do
      let value ← call side function [item]
      return .more (if value.isTrue then item :: kept else kept) := by
    intro later becomes kept item keptKnown itemKnown
    refine .bind ((calls.later becomes).here (becomes.knows functionKnown)
      ⟨itemKnown, trivial⟩) fun last value further _ => Quiet.alongside (.pure ?_)
    have keptLater := further.knowsAll keptKnown
    by_cases holds : value.isTrue = true
    · simp only [if_pos holds]
      exact ⟨further.knows itemKnown, keptLater⟩
    · simp only [if_neg holds]
      exact keptLater
  exact .bind (Access.alongside_overItems collection itemsKnown trivial steps)
    fun later results _ resultsKnown => Quiet.alongside (.newList resultsKnown.reverse)

theorem alongside_someItem
    (calls : CallsAlongside parting call)
    (functionKnown : parting.Knows function) (known : parting.Knows collection) :
    Alongside parting Parting.Knows fun side => someItem (call side) function collection := by
  refine .after (Access.quiet_itemsIfPresent known) fun items itemsKnown => ?_
  refine Access.alongside_overItems collection itemsKnown trivial ?_
  intro later becomes _ item _ itemKnown
  refine .bind ((calls.later becomes).here (becomes.knows functionKnown)
    ⟨itemKnown, trivial⟩) fun last value _ valueKnown => Quiet.alongside (.pure ?_)
  by_cases holds : value.isTrue = true
  · simp only [if_pos holds]
    exact valueKnown
  · simp only [if_neg holds]
    exact trivial

theorem stepsAlongside_combineStep
    (calls : CallsAlongside parting call) (functionKnown : parting.Knows function) :
    Access.StepsAlongside parting Parting.Knows fun side =>
      combineStep (call side) function := by
  intro later becomes result item resultKnown itemKnown
  exact .bind ((calls.later becomes).here (becomes.knows functionKnown)
    ⟨resultKnown, itemKnown, trivial⟩) fun last value _ valueKnown =>
      Quiet.alongside (.pure valueKnown)

theorem alongside_reduce
    {args : List Value} (calls : CallsAlongside parting call)
    (functionKnown : parting.Knows function) (argsKnown : parting.KnowsAll args) :
    Alongside parting Parting.Knows fun side => reduce (call side) function args := by
  have steps := stepsAlongside_combineStep calls functionKnown
  unfold reduce
  split
  · rename_i collection
    refine .after (Access.quiet_items argsKnown.1) fun items itemsKnown => ?_
    cases items with
    | nil => exact Quiet.alongside .fail
    | cons item rest =>
        exact Access.alongside_goThrough collection steps _ _ itemsKnown.2 itemsKnown.1
  · rename_i start collection
    exact .after (Access.quiet_items argsKnown.2.1) fun items itemsKnown =>
      Access.alongside_overItems collection itemsKnown argsKnown.1 steps
  · exact Quiet.alongside .fail

theorem alongside_apply
    {args : List Value} (calls : CallsAlongside parting call)
    (functionKnown : parting.Knows function) (argsKnown : parting.KnowsAll args) :
    Alongside parting Parting.Knows fun side => apply (call side) function args := by
  unfold apply
  cases isLast : args.getLast? with
  | none => exact calls.here functionKnown trivial
  | some last =>
      have lastKnown := allWithin_iff.mp argsKnown last (List.mem_of_getLast? isLast)
      refine .after (Access.quiet_itemsIfPresent lastKnown) fun more moreKnown => ?_
      refine calls.here functionKnown (allWithin_append.mpr ⟨?_, moreKnown⟩)
      exact argsKnown.sublist fun _ member => List.dropLast_subset args member

end Collection

/-! ## Devices -/

namespace Device

theorem quiet_isInstance (lineage : Lineage) (kind value : Value) :
    Quiet parting (fun _ => True) (isInstance lineage kind value) := by
  unfold isInstance
  cases kind with
  | kind target => exact .pure trivial
  | _ => exact .bind (Event.quiet_parseKind _) fun _ _ => .pure trivial

theorem alongside_read
    {value : Value} {name : String} (calls : CallsAlongside parting call)
    (known : parting.Knows value) :
    Alongside parting Parting.Knows fun side => read (call side) value name := by
  refine .after (Access.quiet_member known) fun found foundKnown => ?_
  split
  · exact calls.here foundKnown trivial
  · exact Quiet.alongside (.pure foundKnown)

theorem quiet_enumKeyword (value : Value) (allowed : List String) :
    Quiet parting parting.Knows (enumKeyword value allowed) := by
  unfold enumKeyword
  cases value with
  | constant name => exact .pure trivial
  | kind eventKind => exact .pure trivial
  | _ => exact .bind (.display _) fun _ _ => .pure trivial

theorem alongside_trackSourceSlot
    {status : Value} (calls : CallsAlongside parting call) (known : parting.Knows status) :
    Alongside parting Parting.Knows fun side => trackSourceSlot (call side) status :=
  .bind (alongside_read calls known) fun _ value _ _ =>
    Quiet.alongside (quiet_enumKeyword value _)

theorem alongside_trackType
    {status : Value} (calls : CallsAlongside parting call) (known : parting.Knows status) :
    Alongside parting Parting.Knows fun side => trackType (call side) status :=
  .bind (alongside_read calls known) fun _ value _ _ =>
    Quiet.alongside (quiet_enumKeyword value _)

theorem alongside_lookup
    {collection key : Value} (calls : CallsAlongside parting call)
    (known : parting.Knows collection) (keyKnown : parting.Knows key) :
    Alongside parting Parting.Knows fun side => lookup (call side) collection key :=
  .bind (Access.alongside_lookup calls known keyKnown (someWithin_some trivial))
    fun _ _ _ foundKnown => Quiet.alongside (.pure (within_getD_nil foundKnown))

theorem alongside_trackMatches
    {status globals source number : Value} (calls : CallsAlongside parting call)
    (statusKnown : parting.Knows status) (globalsKnown : parting.Knows globals)
    (sourceKnown : parting.Knows source) (numberKnown : parting.Knows number) :
    Alongside parting (fun _ _ => True) fun side =>
      trackMatches (call side) status globals source number := by
  refine .bind (alongside_lookup calls globalsKnown sourceKnown)
    fun first media toFirst mediaKnown => ?_
  refine .bind (alongside_read (calls.later toFirst) (toFirst.knows statusKnown))
    fun second player toSecond playerKnown => ?_
  have toSecond' := toFirst.trans toSecond
  refine .bind (alongside_lookup (calls.later toSecond') (toSecond.knows mediaKnown) trivial)
    fun third mounted toThird mountedKnown => ?_
  have toThird' := toSecond'.trans toThird
  refine .after (.equal (toThird.knows playerKnown) mountedKnown) fun samePlayer _ => ?_
  split
  · refine .bind (alongside_trackSourceSlot (calls.later toThird') (toThird'.knows statusKnown))
      fun fourth slot toFourth slotKnown => ?_
    have toFourth' := toThird'.trans toFourth
    have mediaLater := toFourth.knows (toThird.knows (toSecond.knows mediaKnown))
    refine .bind (alongside_lookup (calls.later toFourth') mediaLater trivial)
      fun fifth mountedSlot toFifth mountedKnown => ?_
    have toFifth' := toFourth'.trans toFifth
    refine .after (.equal (toFifth.knows slotKnown) mountedKnown) fun sameSlot _ => ?_
    split
    · refine .bind (alongside_read (calls.later toFifth') (toFifth'.knows statusKnown))
        fun sixth loaded toSixth loadedKnown => ?_
      exact Quiet.alongside (.equal loadedKnown ((toFifth'.trans toSixth).knows numberKnown))
    · exact Quiet.alongside (.pure trivial)
  · exact Quiet.alongside (.pure trivial)

theorem alongside_publish
    {locals description : Value} (calls : CallsAlongside parting call)
    (localsKnown : parting.Knows locals) (descriptionKnown : parting.Knows description) :
    Alongside parting (fun _ _ => True) fun side =>
      publish (call side) locals description := by
  have argsKnown : parting.KnowsAll [descriptionKey, description] :=
    ⟨trivial, descriptionKnown, trivial⟩
  exact .bind (Access.alongside_callMember calls localsKnown argsKnown)
    fun _ _ _ _ => Quiet.alongside (.pure trivial)

theorem alongside_describe
    {locals describer track : Value} (calls : CallsAlongside parting call)
    (localsKnown : parting.Knows locals) (describerKnown : parting.Knows describer)
    (trackKnown : parting.Knows track) :
    Alongside parting (fun _ _ => True) fun side =>
      describe (call side) locals describer track := by
  refine .after (Access.quiet_member localsKnown) fun operation operationKnown => ?_
  refine .bind (calls.here describerKnown ⟨trackKnown, trivial⟩) ?_
  intro later description becomes descriptionKnown
  refine .bind ((calls.later becomes).here (becomes.knows operationKnown)
    ⟨trivial, descriptionKnown, trivial⟩) fun _ _ _ _ => ?_
  exact Quiet.alongside (.pure trivial)

theorem alongside_withdraw
    {locals : Value} (calls : CallsAlongside parting call) (localsKnown : parting.Knows locals) :
    Alongside parting (fun _ _ => True) fun side => withdraw (call side) locals := by
  have argsKnown : parting.KnowsAll [descriptionKey] := ⟨trivial, trivial⟩
  exact .bind (Access.alongside_callMember calls localsKnown argsKnown)
    fun _ _ _ _ => Quiet.alongside (.pure trivial)

theorem alongside_findTrack
    {status locals globals source describer : Value} (calls : CallsAlongside parting call)
    (statusKnown : parting.Knows status) (localsKnown : parting.Knows locals)
    (globalsKnown : parting.Knows globals) (sourceKnown : parting.Knows source)
    (describerKnown : parting.Knows describer) :
    Alongside parting Parting.Knows fun side =>
      findTrack (call side) status locals globals source describer := by
  refine .bind (alongside_read calls statusKnown) fun first player toFirst playerKnown => ?_
  refine .bind (alongside_trackSourceSlot (calls.later toFirst) (toFirst.knows statusKnown))
    fun second slot toSecond slotKnown => ?_
  have toSecond' := toFirst.trans toSecond
  refine .bind (alongside_read (calls.later toSecond') (toSecond'.knows statusKnown))
    fun third number toThird numberKnown => ?_
  have toThird' := toSecond'.trans toThird
  have pathKnown : third.Knows (.tuple [source, player, slot, number]) :=
    ⟨toThird'.knows sourceKnown, toThird.knows (toSecond.knows playerKnown),
      toThird.knows slotKnown, numberKnown, trivial⟩
  refine .bind (Access.alongside_lookupPath (calls.later toThird')
    (toThird'.knows globalsKnown) pathKnown) fun fourth found toFourth foundKnown => ?_
  have toFourth' := toThird'.trans toFourth
  have callsThen := calls.later toFourth'
  have trackKnown := within_getD_nil foundKnown
  have withdrawn := alongside_withdraw callsThen (toFourth'.knows localsKnown)
  split
  · exact Quiet.alongside (.pure trackKnown)
  · exact .bind withdrawn fun _ _ becomes _ => Quiet.alongside (.pure (becomes.knows trackKnown))
  · by_cases isFound : (found.getD .nil).isTrue = true
    · simp only [if_pos isFound]
      exact .bind (alongside_describe callsThen (toFourth'.knows localsKnown)
        (toFourth'.knows describerKnown) trackKnown)
        fun _ _ becomes _ => Quiet.alongside (.pure (becomes.knows trackKnown))
    · simp only [if_neg isFound]
      exact .bind withdrawn fun _ _ becomes _ =>
        Quiet.alongside (.pure (becomes.knows trackKnown))

end Device

/-! ## Operations of values -/

namespace Member

theorem quiet_callOnMap
    {entries : ValueEntries} {operation : String} {args : List Value}
    (known : EntriesWithin parting.bounds entries) (argsKnown : parting.KnowsAll args) :
    Quiet parting parting.Knows (callOnMap entries operation args) := by
  unfold callOnMap
  split
  · exact .bind (.ofExcept fun _ isFound => within_of_get known isFound)
      fun _ foundKnown => .pure (within_getD_nil foundKnown)
  · exact .bind (.ofExcept fun _ isFound => within_of_get known isFound)
      fun _ foundKnown => .pure (within_getD foundKnown argsKnown.2.1)
  · exact .newList (allWithin_keys known)
  · exact .newList (allWithin_values known)
  · exact .fail

theorem quiet_callOnList
    {items args : List Value} {birth : Nat} (known : parting.Knows (.list items birth)) :
    Quiet parting parting.Knows (callOnList items birth args) := by
  obtain ⟨lists, itemsKnown⟩ := known
  unfold callOnList
  split
  · split
    · rename_i left isLeft
      have part := mem_of_withoutFirst isLeft
      refine .bind (.modify (fun heap => heap.leave_rescope _ birth left)
        fun heap fits => fits.leave (lists.sublist part) (itemsKnown.sublist part)) ?_
      exact fun _ _ => .pure trivial
    · exact .fail
  · exact .fail

theorem alongside_callOnScope
    {scope : Nat} {operation : String} {args : List Value}
    (isShared : parting.shared scope) (argsKnown : parting.KnowsAll args) :
    Alongside parting Parting.Knows fun _ => callOnScope scope operation args := by
  have opened (vars : ValueEntries) (known : EntriesWithin parting.bounds vars) :
      Alongside parting Parting.Knows fun _ =>
        Action.childScope scope vars >>= fun inner => Pure.pure (.scope inner) :=
    .bind (.childScope isShared known) fun _ _ _ innerShared =>
      Quiet.alongside (.pure ⟨innerShared, trivial⟩)
  unfold callOnScope
  split
  · exact Quiet.alongside (.lookup isShared)
  · have alike := parting.sameVariables isShared
    exact Quiet.alongside (.bind (.define alike argsKnown.1 argsKnown.2.1)
      fun _ _ => .pure trivial)
  · exact opened [] trivial
  · exact opened [] trivial
  · rename_i holder _
    have taken : Quiet parting (Variables.Within parting.bounds)
        (Action.change fun heap => heap.variablesOf holder) :=
      .change (fun heap => heap.variablesOf_rescope _ holder)
        fun heap fits => fits.variablesOf argsKnown.1
    refine .after taken fun vars varsKnown => ?_
    exact .bind (.scopeInside isShared varsKnown) fun _ _ _ innerShared =>
      Quiet.alongside (.pure ⟨innerShared, trivial⟩)
  · exact Quiet.alongside .fail

theorem alongside_call
    {receiver : Value} {operation : String} {args : List Value}
    (calls : CallsAlongside parting call)
    (known : parting.Knows receiver) (argsKnown : parting.KnowsAll args) :
    Alongside parting Parting.Knows fun side =>
      Member.call (call side) receiver operation args := by
  unfold Member.call
  cases receiver with
  | store id => exact Store.alongside_perform calls argsKnown
  | map entries birth => exact Quiet.alongside (quiet_callOnMap known.2 argsKnown)
  | list items birth => exact Quiet.alongside (quiet_callOnList known)
  | kind eventKind =>
      simp only
      split
      · exact Quiet.alongside (.bind (Event.quiet_parseKind _) fun _ _ => .pure trivial)
      · refine Quiet.alongside (.pure ?_)
        cases Event.kind? _ <;> exact trivial
      · exact Quiet.alongside .fail
  | event id origin members =>
      simp only
      split
      · exact Quiet.alongside (Event.quiet_ofMap argsKnown.1 argsKnown.2.1)
      · exact Quiet.alongside .fail
  | symbol name =>
      simp only
      split
      · exact Quiet.alongside (.pure trivial)
      · exact Quiet.alongside .fail
  | scope id => exact alongside_callOnScope known.1 argsKnown
  | settings config =>
      simp only
      split
      · refine Quiet.alongside (.newList (allWithin_iff.mpr fun item member => ?_))
        obtain ⟨each, -, rfl⟩ := List.mem_map.mp member
        exact trivial
      · exact Quiet.alongside .fail
  | _ => exact Quiet.alongside .fail

end Member

/-! ## Calls of built-in functions -/

namespace Call

theorem quiet_hasParity
    (remainder : Int) {value : Value} (known : parting.Knows value) :
    Quiet parting parting.Knows (hasParity remainder value) :=
  .bind (Arithmetic.quiet_modulo known _) fun _ _ => .pure trivial

theorem quiet_comparesToZero (relation : Comparison) (value : Value) :
    Quiet parting parting.Knows (comparesToZero relation value) :=
  .bind (.ofExcept fun _ _ => trivial) fun _ (_ : True) => .pure trivial

theorem quiet_ordered (relation : Comparison) (args : List Value) :
    Quiet parting parting.Knows (ordered relation args) := by
  unfold ordered
  split
  · exact .fail
  · refine .bind (Arithmetic.quiet_eachHolds ?_ _ _) fun _ _ => .pure trivial
    exact fun _ _ => .ofExcept fun _ _ => trivial

theorem quiet_allEqual (args : List Value) :
    Quiet parting (fun _ => True) (allEqual args) := by
  unfold allEqual
  split
  · exact .fail
  · exact Arithmetic.quiet_eachHolds (fun _ _ => .pure trivial) _ _

theorem quiet_extremeOf
    (relation : Comparison) {args : List Value} (known : parting.KnowsAll args) :
    Quiet parting parting.Knows (extremeOf relation args) := by
  unfold extremeOf
  split
  · exact .fail
  · refine .bind (Access.quiet_items known.1) fun items itemsKnown => ?_
    split
    · exact .fail
    · exact Arithmetic.quiet_extreme relation itemsKnown.1 itemsKnown.2
  · exact Arithmetic.quiet_extreme relation known.1 known.2

theorem quiet_joinedText (values : List Value) :
    Quiet parting (fun _ => True) (joinedText values) := by
  induction values with
  | nil => exact .pure trivial
  | cons value rest inductionHypothesis =>
      have text : Quiet parting (fun _ => True)
          (Action.reading fun heap => heap.textPart value) :=
        .reading (fun _ _ => by rw [Heap.textPart_rescope]) fun _ _ _ _ => trivial
      exact .bind text fun _ _ => .bind inductionHypothesis fun _ _ => .pure trivial

theorem quiet_performArithmetic
    {function : Builtin} {args : List Value} (known : parting.KnowsAll args) :
    Quiet parting parting.Knows (performArithmetic function args) := by
  unfold performArithmetic
  split
  · exact Arithmetic.quiet_chain (fun _ _ _ _ => Arithmetic.quiet_combine _ _ _ _) trivial known
  · exact Arithmetic.quiet_negate _
  · exact Arithmetic.quiet_chain (fun _ _ _ _ => Arithmetic.quiet_combine _ _ _ _) known.1
      known.2
  · exact Arithmetic.quiet_chain (fun _ _ => Arithmetic.quiet_multiply) trivial known
  · exact Arithmetic.quiet_divide _ _
  · exact Arithmetic.quiet_chain (fun _ _ _ _ => Arithmetic.quiet_divide _ _) known.1 known.2
  · exact .bind (Arithmetic.quiet_quotient _ _) fun _ _ => Arithmetic.quiet_integerPart _
  · exact Arithmetic.quiet_modulo known.1 _
  · exact Arithmetic.quiet_combine _ _ _ _
  · exact Arithmetic.quiet_combine _ _ _ _
  · exact quiet_extremeOf _ known
  · exact quiet_extremeOf _ known
  · exact Arithmetic.quiet_absolute _
  · exact .fail

theorem quiet_performTest
    {function : Builtin} {args : List Value} (known : parting.KnowsAll args) :
    Quiet parting parting.Knows (performTest function args) := by
  unfold performTest
  split
  · exact .bind (quiet_allEqual args) fun _ _ => .pure trivial
  · exact .bind (quiet_allEqual args) fun _ _ => .pure trivial
  all_goals first
    | exact .pure trivial
    | exact .fail
    | exact quiet_ordered _ _
    | exact quiet_comparesToZero _ _
    | exact quiet_hasParity _ known.1

theorem quiet_performText
    {function : Builtin} {args : List Value} (known : parting.KnowsAll args) :
    Quiet parting parting.Knows (performText function args) := by
  unfold performText
  split
  · exact .bind (quiet_joinedText args) fun _ _ => .pure trivial
  · split
    · exact Arithmetic.quiet_fillTemplate known.1 _ _
    · exact .fail
  · exact .bind (.display _) fun _ _ => .pure trivial
  · exact .bind (.display _) fun _ _ => .pure trivial
  · exact .fail

theorem alongside_performCollection
    {function : Builtin} {args : List Value} (calls : CallsAlongside parting call)
    (known : parting.KnowsAll args) :
    Alongside parting Parting.Knows fun side =>
      performCollection (call side) function args := by
  unfold performCollection
  split
  · exact .bind (Access.alongside_lookup calls known.1 known.2.1 (someWithin_some trivial))
      fun _ _ _ foundKnown => Quiet.alongside (.pure (within_getD_nil foundKnown))
  · exact .bind (Access.alongside_lookup calls known.1 known.2.1 (someWithin_some known.2.2.1))
      fun _ _ becomes foundKnown =>
        Quiet.alongside (.pure (within_getD foundKnown (becomes.knows known.2.2.1)))
  · exact .bind (Access.alongside_lookupPath calls known.1 known.2.1)
      fun _ _ _ foundKnown => Quiet.alongside (.pure (within_getD_nil foundKnown))
  · exact .bind (Access.alongside_lookupPath calls known.1 known.2.1)
      fun _ _ becomes foundKnown =>
        Quiet.alongside (.pure (within_getD foundKnown (becomes.knows known.2.2.1)))
  · exact Quiet.alongside (.newList known)
  · exact Quiet.alongside (Collection.quiet_hashMap known)
  · exact Collection.alongside_assoc calls known.1 known.2
  · exact Collection.alongside_dissoc calls known.1
  · exact Quiet.alongside (.bind (Collection.quiet_contains _ _) fun _ _ => .pure trivial)
  · exact Quiet.alongside (.bind (Collection.quiet_count known.1) fun _ _ => .pure trivial)
  · exact Quiet.alongside (.bind (Collection.quiet_count known.1) fun _ _ => .pure trivial)
  · exact Quiet.alongside (Collection.quiet_first known.1)
  · exact Quiet.alongside (Collection.quiet_second known.1)
  · exact Quiet.alongside (Collection.quiet_rest known.1)
  · refine Quiet.alongside (Collection.quiet_nth known.1 fun value isHead => ?_)
    exact allWithin_iff.mp known.2.2 value (List.mem_of_head? isHead)
  · exact Quiet.alongside (Collection.quiet_conj known.1 known.2)
  · exact Collection.alongside_listed calls known.1
  · exact Collection.alongside_listed calls known.1
  · exact Collection.alongside_mapItems calls known.1 known.2.1
  · exact Collection.alongside_filterItems calls known.1 known.2.1
  · exact Collection.alongside_someItem calls known.1 known.2.1
  · exact Collection.alongside_reduce calls known.1 known.2
  · exact Collection.alongside_apply calls known.1 known.2
  · exact Quiet.alongside .fail

theorem alongside_performDevice
    {function : Builtin} {args : List Value} (calls : CallsAlongside parting call)
    (known : parting.KnowsAll args) :
    Alongside parting Parting.Knows fun side => performDevice (call side) function args := by
  unfold performDevice
  split
  · exact Quiet.alongside (.bind (Device.quiet_isInstance _ _ _) fun _ _ => .pure trivial)
  · exact Quiet.alongside (Arithmetic.quiet_divide _ _)
  · exact Quiet.alongside (.bind (Arithmetic.quiet_combine _ _ _ _) fun _ deviationKnown =>
      .bind (Arithmetic.quiet_multiply deviationKnown trivial) fun _ _ =>
        Arithmetic.quiet_divide _ _)
  · exact Device.alongside_trackSourceSlot calls known.1
  · exact Device.alongside_trackType calls known.1
  · exact .bind (Device.alongside_trackMatches calls known.1 known.2.1 known.2.2.1
      known.2.2.2.1) fun _ _ _ _ => Quiet.alongside (.pure trivial)
  · exact Device.alongside_findTrack calls known.1 known.2.1 known.2.2.1 known.2.2.2.1 trivial
  · exact Device.alongside_findTrack calls known.1 known.2.1 known.2.2.1 known.2.2.2.1
      known.2.2.2.2.1
  · exact Access.alongside_callMember calls known.1 ⟨known.2.1, trivial, trivial⟩
  · exact Access.alongside_callMember calls known.1 known.2
  · exact Access.alongside_callMember calls known.1 known.2
  · exact Access.alongside_callMember calls known.1 known.2
  · exact Access.alongside_callMember calls known.1 known.2
  · exact Access.alongside_callMember calls known.1 known.2
  · exact .bind (Device.alongside_publish calls known.1 known.2.1) fun _ _ becomes _ =>
      Quiet.alongside (.pure (becomes.knows known.2.1))
  · exact Quiet.alongside .fail

theorem alongside_perform
    {function : Builtin} {args : List Value} (calls : CallsAlongside parting call)
    (known : parting.KnowsAll args) :
    Alongside parting Parting.Knows fun side => perform (call side) function args := by
  unfold perform
  split
  · exact Quiet.alongside (quiet_performArithmetic known)
  · exact Quiet.alongside (quiet_performTest known)
  · exact Quiet.alongside (quiet_performText known)
  · exact alongside_performCollection calls known
  · exact alongside_performDevice calls known

end Call

end CueScript
