import CueScript.Proofs.Twin.Rename
import CueScript.Text.Template

/-!
# Texts of renamed values

No text shows a number, so a renamed value has the text of the value.  A list inside itself
is told by its number; both have the same ones inside one another.
-/

namespace CueScript

/-- What something is shown inside of, under other numbers. -/
def Enclosure.rename (ρ : Renaming) : Enclosure → Enclosure
  | value birth => .value (ρ.births birth)
  | store id => .store id

namespace Enclosure

variable (ρ : Renaming)

theorem rename_injective : Function.Injective (rename ρ) := by
  intro a b same
  cases a <;> cases b <;> simp only [rename, value.injEq, store.injEq, reduceCtorEq] at same
  · rw [ρ.births_injective same]
  · rw [same]

@[simp]
theorem isStore_rename (enclosure : Enclosure) :
    (rename ρ enclosure).isStore = enclosure.isStore := by
  cases enclosure <;> rfl

@[simp]
theorem mem_map_rename (enclosure : Enclosure) (path : List Enclosure) :
    rename ρ enclosure ∈ path.map (rename ρ) ↔ enclosure ∈ path := by
  constructor
  · intro member
    obtain ⟨other, isOther, same⟩ := List.mem_map.mp member
    rw [← rename_injective ρ same]
    exact isOther
  · exact List.mem_map_of_mem

end Enclosure

namespace Value

variable (ρ : Renaming)

@[simp]
theorem isInside_rename (birth : Nat) (path : List Enclosure) :
    isInside (ρ.births birth) (path.map (Enclosure.rename ρ)) = isInside birth path := by
  have same : (path.map (Enclosure.rename ρ)).contains (.value (ρ.births birth)) =
      path.contains (.value birth) := by
    rw [Bool.eq_iff_iff, List.contains_iff_mem, List.contains_iff_mem]
    exact Enclosure.mem_map_rename ρ (.value birth) path
  rw [isInside, isInside, same, births_bne_zero]

theorem kindTag_rename (members : List (String × Value)) :
    kindTag (members.map (renameMember ρ)) = kindTag members := by
  induction members with
  | nil => rfl
  | cons first rest inductionHypothesis =>
      obtain ⟨name, value⟩ := first
      cases value <;>
        simp only [List.map_cons, renameMember_mk, rename, kindTag, inductionHypothesis]

section Shown

variable {showStore other : List Enclosure → Nat → Except Failure String}

mutual

/-- A renamed value is shown as the value. -/
theorem shown_rename
    (alike : ∀ path id, other (path.map (Enclosure.rename ρ)) id = showStore path id)
    (path : List Enclosure) (value : Value) :
    shown other (path.map (Enclosure.rename ρ)) (rename ρ value) =
      shown showStore path value := by
  cases value with
  | list items birth =>
      have inner := shownItems_rename alike (.value birth :: path) items
      rw [List.map_cons, Enclosure.rename] at inner
      rw [rename_list, shown, shown, isInside_rename, inner]
  | vector items birth =>
      have inner := shownItems_rename alike (.value birth :: path) items
      rw [List.map_cons, Enclosure.rename] at inner
      rw [rename_vector, shown, shown, isInside_rename, inner]
  | map entries birth =>
      have inner := shownEntries_rename alike (.value birth :: path) entries
      rw [List.map_cons, Enclosure.rename] at inner
      rw [rename_map, shown, shown, isInside_rename, inner]
  | quoted form => rw [rename_quoted, shown, shown, shown_rename alike path form]
  | tuple items => rw [rename_tuple, shown, shown, shownItems_rename alike path items]
  | store id => rw [rename_store, shown, shown, alike]
  | event id origin members =>
      rw [rename_event]
      cases origin with
      | record => rw [shown, shown, shownMembers_rename alike path members, kindTag_rename]
      | chain names => rw [shown, shown]
  | _ => simp only [rename, shown]

theorem shownItems_rename
    (alike : ∀ path id, other (path.map (Enclosure.rename ρ)) id = showStore path id)
    (path : List Enclosure) (items : List Value) :
    shownItems other (path.map (Enclosure.rename ρ)) (items.map (rename ρ)) =
      shownItems showStore path items := by
  cases items with
  | nil => rfl
  | cons item rest =>
      rw [List.map_cons, shownItems, shownItems, shown_rename alike path item,
        shownItems_rename alike path rest]

theorem shownEntries_rename
    (alike : ∀ path id, other (path.map (Enclosure.rename ρ)) id = showStore path id)
    (path : List Enclosure) (entries : List (Value × Value)) :
    shownEntries other (path.map (Enclosure.rename ρ)) (entries.map (renameEntry ρ)) =
      shownEntries showStore path entries := by
  cases entries with
  | nil => rfl
  | cons entry rest =>
      rw [List.map_cons, shownEntries, shownEntries, shownEntry_rename alike path entry,
        shownEntries_rename alike path rest]

theorem shownEntry_rename
    (alike : ∀ path id, other (path.map (Enclosure.rename ρ)) id = showStore path id)
    (path : List Enclosure) (entry : Value × Value) :
    shownEntry other (path.map (Enclosure.rename ρ)) (renameEntry ρ entry) =
      shownEntry showStore path entry := by
  cases entry with
  | mk key value =>
      rw [renameEntry_mk, shownEntry, shownEntry, shown_rename alike path key,
        shown_rename alike path value]

theorem shownMembers_rename
    (alike : ∀ path id, other (path.map (Enclosure.rename ρ)) id = showStore path id)
    (path : List Enclosure) (members : List (String × Value)) :
    shownMembers other (path.map (Enclosure.rename ρ)) (members.map (renameMember ρ)) =
      shownMembers showStore path members := by
  cases members with
  | nil => rfl
  | cons first rest =>
      rw [List.map_cons, shownMembers, shownMembers, shownMember_rename alike path first,
        shownMembers_rename alike path rest]

theorem shownMember_rename
    (alike : ∀ path id, other (path.map (Enclosure.rename ρ)) id = showStore path id)
    (path : List Enclosure) (first : String × Value) :
    shownMember other (path.map (Enclosure.rename ρ)) (renameMember ρ first) =
      shownMember showStore path first := by
  cases first with
  | mk name value =>
      rw [renameMember_mk, shownMember, shownMember, shown_rename alike path value]

end

mutual

theorem source_rename
    (alike : ∀ path id, other (path.map (Enclosure.rename ρ)) id = showStore path id)
    (value : Value) :
    source other (rename ρ value) = source showStore value := by
  have whole := shown_rename ρ alike [] value
  cases value with
  | list items birth =>
      rw [rename_list, source, source, sourceItems_rename alike items]
  | vector items birth =>
      rw [rename_vector, source, source, sourceItems_rename alike items]
  | quoted form => rw [rename_quoted, source, source, source_rename alike form]
  | _ =>
      simp only [rename, List.map_nil] at whole
      simp only [rename, source, whole]

theorem sourceItems_rename
    (alike : ∀ path id, other (path.map (Enclosure.rename ρ)) id = showStore path id)
    (items : List Value) :
    sourceItems other (items.map (rename ρ)) = sourceItems showStore items := by
  cases items with
  | nil => rfl
  | cons item rest =>
      rw [List.map_cons, sourceItems, sourceItems, source_rename alike item,
        sourceItems_rename alike rest]

end

theorem display_rename
    (alike : ∀ path id, other (path.map (Enclosure.rename ρ)) id = showStore path id)
    (value : Value) :
    display other (rename ρ value) = display showStore value := by
  have whole := shown_rename ρ alike [] value
  rw [List.map_nil] at whole
  unfold display
  rw [toText_rename]
  cases value <;> simp only [rename] at whole <;> simp only [rename, toText?, whole]

theorem textPart_rename
    (alike : ∀ path id, other (path.map (Enclosure.rename ρ)) id = showStore path id)
    (value : Value) :
    textPart other (rename ρ value) = textPart showStore value := by
  have displayed := display_rename ρ alike value
  have written := source_rename ρ alike value
  cases value <;> simp only [rename] at displayed written <;>
    simp only [rename, textPart, displayed, written]

end Shown

end Value

/-! ## Templates -/

namespace Template

/-- What follows a renamed result gives a renamed result. -/
theorem bind_map
    {α β : Type} {first other : Except Failure α} {next later : α → Except Failure β}
    (f : α → α) {g : β → β}
    (head : other = first.map f) (tail : ∀ result, later (f result) = (next result).map g) :
    (other >>= later) = (first >>= next).map g := by
  rw [head]
  cases first with
  | error failure => rfl
  | ok result => exact tail result

theorem bind_same_map
    {α β : Type} {first : Except Failure α} {next later : α → Except Failure β} {g : β → β}
    (tail : ∀ result, later result = (next result).map g) :
    (first >>= later) = (first >>= next).map g := by
  cases first with
  | error failure => rfl
  | ok result => exact tail result

variable (ρ : Renaming)

/-- The arguments of a template under other numbers. -/
def Arguments.rename (arguments : Arguments) : Arguments :=
  ⟨arguments.remaining.map (Value.rename ρ), arguments.named.map (Value.rename ρ)⟩

theorem integerOf_rename (decimal : Bool) (value : Value) :
    integerOf decimal (value.rename ρ) = integerOf decimal value := by
  rw [integerOf, integerOf, Value.toNumeric_rename]

theorem integerPiece_rename (conversion : Conversion) (value : Value) :
    integerPiece conversion (value.rename ρ) = integerPiece conversion value := by
  simp only [integerPiece, integerOf_rename]

theorem fractionPiece_rename (conversion : Conversion) (value : Value) :
    fractionPiece conversion (value.rename ρ) = fractionPiece conversion value := by
  simp only [fractionPiece, Value.toNumeric_rename]

theorem characterOf_rename (value : Value) :
    characterOf (value.rename ρ) = characterOf value := by
  rw [characterOf, characterOf, Value.toText_rename, Value.toInt_rename]

/-- Whether texts do not depend on numbers. -/
structure Texts.Alike (texts other : Texts) : Prop where
  display : ∀ value : Value, other.display (value.rename ρ) = texts.display value
  shown : ∀ value : Value, other.shown (value.rename ρ) = texts.shown value

variable {texts other : Texts}

theorem convert_rename
    (alike : texts.Alike ρ other) (conversion : Conversion) (value : Value) :
    convert other conversion (value.rename ρ) = convert texts conversion value := by
  simp only [convert, alike.display, alike.shown, characterOf_rename, integerPiece_rename,
    fractionPiece_rename]

theorem next_rename (arguments : Arguments) :
    (arguments.rename ρ).next =
      arguments.next.map fun found => (found.1.rename ρ, found.2.rename ρ) := by
  obtain ⟨remaining, named⟩ := arguments
  cases remaining <;> rfl

theorem select_rename (arguments : Arguments) (name : String) :
    (arguments.rename ρ).select name =
      (arguments.select name).map (Arguments.rename ρ) := by
  obtain ⟨remaining, named⟩ := arguments
  cases named with
  | none => rfl
  | some holder =>
      cases holder with
      | map entries birth =>
          have found := Value.get_rename ρ (.str name) entries
          simp only [Value.rename_str] at found
          simp only [Arguments.rename, Arguments.select, Option.map_some, Value.rename_map, found]
          cases ValueEntries.get? entries (.str name) with
          | error failure => rfl
          | ok value =>
              cases value with
              | none => rfl
              | some each =>
                  simp [Except.map, bind, Except.bind, pure, Except.pure, Arguments.rename]
      | _ => simp [Arguments.rename, Arguments.select, throw, throwThe, MonadExceptOf.throw,
          Except.map]

theorem starCount_rename (bound : Nat) (arguments : Arguments) :
    starCount bound (arguments.rename ρ) =
      (starCount bound arguments).map fun taken => (taken.1, taken.2.rename ρ) := by
  unfold starCount
  rw [next_rename]
  cases arguments.next with
  | error failure => rfl
  | ok found =>
      obtain ⟨value, rest⟩ := found
      simp only [Except.map, bind, Except.bind, Value.toInt_rename]
      cases value.toInt? with
      | none => rfl
      | some count =>
          simp only
          split <;> rfl

theorem takeWidth_rename (flags : Flags) (text : List Char) (arguments : Arguments) :
    takeWidth flags text (arguments.rename ρ) =
      (takeWidth flags text arguments).map fun taken =>
        (taken.1, taken.2.1, taken.2.2.1, taken.2.2.2.rename ρ) := by
  unfold takeWidth
  split
  · rw [starCount_rename]
    cases starCount maxWidth arguments with
    | error failure => rfl
    | ok found =>
        obtain ⟨count, rest⟩ := found
        simp only [Except.map, bind, Except.bind]
        split <;> rfl
  · cases takeCount maxWidth 0 text <;> rfl

theorem takePrecision_rename (text : List Char) (arguments : Arguments) :
    takePrecision text (arguments.rename ρ) =
      (takePrecision text arguments).map fun taken =>
        (taken.1, taken.2.1, taken.2.2.rename ρ) := by
  unfold takePrecision
  split
  · rw [starCount_rename]
    cases starCount maxPrecision arguments <;> rfl
  · cases takeCount maxPrecision 0 _ <;> rfl
  · rfl

/-- What follows the name of a conversion, which has its own two ways to begin. -/
def takeAfterName (start : List Char × Arguments) :
    Except Failure (Conversion × List Char × Arguments) := do
  let (flags, text) := takeFlags {} start.1
  let (flags, width, text, arguments) ← takeWidth flags text start.2
  let (precision, text, arguments) ← takePrecision text arguments
  match skipSize text with
  | [] => throw .badValue
  | letter :: rest => pure (⟨flags, width, precision, letter⟩, rest, arguments)

theorem takeAfterName_rename (start : List Char × Arguments) :
    takeAfterName (start.1, start.2.rename ρ) =
      (takeAfterName start).map fun taken => (taken.1, taken.2.1, taken.2.2.rename ρ) := by
  refine bind_map _ (takeWidth_rename ρ _ _ start.2) fun taken => ?_
  obtain ⟨flags, width, text, arguments⟩ := taken
  refine bind_map _ (takePrecision_rename ρ text arguments) fun taken => ?_
  obtain ⟨precision, text, arguments⟩ := taken
  simp only
  cases skipSize text <;> rfl

theorem takeConversion_rename (text : List Char) (arguments : Arguments) :
    takeConversion text (arguments.rename ρ) =
      (takeConversion text arguments).map fun taken =>
        (taken.1, taken.2.1, taken.2.2.rename ρ) := by
  rcases text with _ | ⟨c, rest⟩
  · exact takeAfterName_rename ρ ([], arguments)
  · by_cases isName : c = '('
    · subst isName
      obtain ⟨remaining, named⟩ := arguments
      cases named with
      | none => rfl
      | some holder =>
          refine bind_same_map fun named => ?_
          obtain ⟨name, rest⟩ := named
          refine bind_map (Arguments.rename ρ) (select_rename ρ _ name) fun selected => ?_
          exact takeAfterName_rename ρ (rest, selected)
    · have isPlain (arguments : Arguments) :
          takeConversion (c :: rest) arguments = takeAfterName (c :: rest, arguments) := by
        unfold takeConversion
        split
        · rename_i same
          cases same
          exact absurd rfl isName
        · rfl
      rw [isPlain, isPlain]
      exact takeAfterName_rename ρ (c :: rest, arguments)

theorem fillWithin_rename
    (alike : texts.Alike ρ other) (budget : Nat) (text : List Char) (arguments : Arguments) :
    fillWithin other budget text (arguments.rename ρ) =
      (fillWithin texts budget text arguments).map fun filled =>
        (filled.1, filled.2.rename ρ) := by
  induction budget, text, arguments using fillWithin.induct with
  | case1 budget arguments => cases budget <;> rfl
  | case2 c rest arguments => rfl
  | case3 budget rest arguments inductionHypothesis =>
      exact bind_map _ inductionHypothesis fun _ => rfl
  | case4 budget rest arguments notPercent inductionHypothesis =>
      rw [fillWithin, fillWithin]
      · simp only [if_true]
        refine bind_map _ (takeConversion_rename ρ rest arguments) fun taken => ?_
        obtain ⟨conversion, rest, arguments⟩ := taken
        refine bind_map _ (next_rename ρ arguments) fun next => ?_
        obtain ⟨value, arguments⟩ := next
        simp only [convert_rename ρ alike]
        refine bind_same_map fun part => ?_
        exact bind_map _ (inductionHypothesis rest arguments) fun _ => rfl
      · exact notPercent
      · exact notPercent
  | case5 budget c rest arguments isText inductionHypothesis =>
      unfold fillWithin
      rw [if_neg isText, if_neg isText]
      exact bind_map _ inductionHypothesis fun _ => rfl

theorem ofValue_rename (value : Value) :
    Arguments.ofValue (value.rename ρ) = (Arguments.ofValue value).rename ρ := by
  unfold Arguments.ofValue
  rw [Value.toTuple_rename]
  cases value <;> simp [Value.toTuple?, Arguments.rename]

theorem fill_rename
    (alike : texts.Alike ρ other) (template : String) (arguments : Arguments) :
    fill other template (arguments.rename ρ) = fill texts template arguments := by
  unfold fill
  simp only [fillWithin_rename ρ alike]
  cases fillWithin texts template.toList.length template.toList arguments with
  | error failure => rfl
  | ok filled =>
      obtain ⟨parts, left⟩ := filled
      simp only [Except.map, bind, Except.bind, Arguments.rename, Option.isNone_map,
        List.isEmpty_map]

end Template

end CueScript
