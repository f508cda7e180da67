import CueScript.Proofs.Extract.Alone
import CueScript.Proofs.Reader.Printed

/-!
# Members of events

An event record is made of a map, and `(.name status)` reads a member of it.  Between the
two lie the text of a key, the change of its hyphens, the fields of the record and the
look-up of a field.  Where no two keys become one member, the fields of a record are those
of the map in their order, after the kind; reading a member gives what the map has, unless
that can be called, for what can be called is taken for a method.
-/

namespace CueScript

/-- The form `(.name status)`, a list with a number of its own. -/
def Event.memberForm (name : String) (birth : Nat) : Value :=
  .list [.symbol ("." ++ name), .symbol "status"] birth

/-! ## Names with a dot before them -/

namespace Literal

theorem digitValue_of_surroundsNumber
    {c : Char} (blank : Text.surroundsNumber c = true) : Text.digitValue? c = none := by
  rw [Text.digitValue?]
  split
  · next ascii =>
      refine if_neg fun isDigit => ?_
      have atLeast : 0x30 ≤ c.toNat := isDigit.1
      have atMost : c.toNat ≤ 0x39 := isDigit.2
      simp only [Text.surroundsNumber, Text.isAsciiBlank, Bool.or_eq_true, Bool.and_eq_true,
        decide_eq_true_eq, beq_iff_eq] at blank
      omega
  · next notAscii =>
      simp only [Text.surroundsNumber, Text.isAsciiBlank, Text.isBlank, Bool.or_eq_true,
        Bool.and_eq_true, decide_eq_true_eq, beq_iff_eq] at blank
      rw [Option.map_eq_none_iff, List.find?_eq_none]
      intro first member
      simp only [Text.zeroDigits, List.mem_cons, List.not_mem_nil, or_false] at member
      simp only [Bool.and_eq_true, decide_eq_true_eq]
      omega

/-- What is left of a name when the blanks at its end are dropped. -/
def withoutEnd (name : List Char) : List Char :=
  (name.reverse.dropWhile Text.surroundsNumber).reverse

theorem stripWhile_dot (name : List Char) :
    Text.stripWhile Text.surroundsNumber ('.' :: name) = '.' :: withoutEnd name := by
  have dotStays : Text.surroundsNumber '.' = false := rfl
  rw [Text.stripWhile, withoutEnd, List.dropWhile_cons_of_neg (by simp [dotStays]),
    List.reverse_cons, List.dropWhile_append]
  cases left : name.reverse.dropWhile Text.surroundsNumber with
  | nil => simp [dotStays]
  | cons c rest => simp

theorem readInt?_dot (name : List Char) : readInt? ('.' :: name) = none := by
  rw [readInt?, stripWhile_dot]
  rfl

/-- A text without a sign that is no word is no number if it has no digits, or if something
else than an exponent follows them. -/
theorem readNumber?_eq_none_iff
    {text body : List Char} (stripped : Text.stripWhile Text.surroundsNumber text = body)
    (unsigned : takeSign body = (false, body)) (noWord : wordValue? false body = none) :
    readNumber? text = none ↔
      (takeDigits body).width + (takeFraction (takeDigits body).rest).width = 0 ∨
        readExponent? (takeFraction (takeDigits body).rest).rest = none := by
  simp only [readNumber?, stripped, unsigned, noWord, ite_eq_left_iff, Option.map_eq_none_iff]
  exact Decidable.or_iff_not_imp_left.symm

theorem takeDigits_of_none
    {c : Char} (noDigit : Text.digitValue? c = none) (rest : List Char) :
    takeDigits (c :: rest) = ⟨0, 0, c :: rest⟩ := by
  rw [takeDigits, noDigit]

/-- Digits after a point, with what follows them, are a number unless they are none or
something else than an exponent follows. -/
theorem readNumber?_dot_eq_none_iff {name : List Char} :
    readNumber? ('.' :: name) = none ↔
      (takeDigits (withoutEnd name)).width = 0 ∨
        readExponent? (takeDigits (withoutEnd name)).rest = none := by
  have noWhole : takeDigits ('.' :: withoutEnd name) = ⟨0, 0, '.' :: withoutEnd name⟩ :=
    takeDigits_of_none rfl _
  rw [readNumber?_eq_none_iff (stripWhile_dot name) rfl rfl, noWhole, takeFraction, Nat.zero_add]

/-- A blank at the front of a name is no digit, and else nothing is dropped there. -/
theorem withoutEnd_cases (name : List Char) :
    (takeDigits (withoutEnd name)).width = 0 ∨
      Text.stripWhile Text.surroundsNumber name = withoutEnd name := by
  rcases name with _ | ⟨c, rest⟩
  · exact .inl rfl
  · by_cases blank : Text.surroundsNumber c = true
    · left
      rw [withoutEnd, List.reverse_cons, List.dropWhile_append]
      cases left : rest.reverse.dropWhile Text.surroundsNumber with
      | nil => simp [blank, takeDigits]
      | cons d others =>
          simp [takeDigits_of_none (digitValue_of_surroundsNumber blank)]
    · right
      rw [Text.stripWhile, withoutEnd, List.dropWhile_cons_of_neg blank]

/-- No number is written as a dot and a name that is no number itself. -/
theorem readNumber?_dot
    {name : List Char} (notNumber : readNumber? name = none) :
    readNumber? ('.' :: name) = none := by
  rw [readNumber?_dot_eq_none_iff]
  rcases withoutEnd_cases name with noDigits | stripped
  · exact .inl noDigits
  · by_cases unsigned : takeSign (withoutEnd name) = (false, withoutEnd name)
    · cases noWord : wordValue? false (withoutEnd name) with
      | some word => simp [readNumber?, stripped, unsigned, noWord] at notNumber
      | none =>
          rcases (readNumber?_eq_none_iff stripped unsigned noWord).mp notNumber with
            noDigits | noExponent
          · exact .inl (Nat.eq_zero_of_add_eq_zero_right noDigits)
          · right
            unfold takeFraction at noExponent
            split at noExponent
            · next pointed => rw [pointed]; rfl
            · exact noExponent
    · left
      unfold takeSign at unsigned
      split at unsigned
      · next signed => rw [signed]; rfl
      · next signed => rw [signed]; rfl
      · exact absurd rfl unsigned

end Literal

namespace Value

/-- A dot can stand before every name that a symbol can be read back by. -/
theorem Legible.dot {name : List Char} (legible : Legible name) : Legible ('.' :: name) where
  plain := List.forall_mem_cons.mpr ⟨by decide, legible.plain⟩
  notQuoting := by simp
  notInteger := Literal.readInt?_dot name
  notNumber := Literal.readNumber?_dot legible.notNumber
  visible := fun stripped => by
    have blank := strip_eq_nil_iff.mp stripped '.' List.mem_cons_self
    cases blank

/-- The text `(.name status)` is the form that reads a member. -/
theorem read_memberForm
    {name : String} (legible : Legible name.toList) :
    read ("(." ++ name ++ " status)").toList =
      .ok [Event.memberForm name 0] := by
  have dotted : Legible ("." ++ name).toList := by
    rw [String.toList_append]
    exact legible.dot
  have status : Legible "status".toList := by decide +kernel
  have noStores : List Enclosure → Nat → Except Failure String := fun _ _ => .ok ""
  have items : List.Forall₂ (Written noStores) [.symbol ("." ++ name), .symbol "status"]
      ["." ++ name, "status"] :=
    .cons (written_symbol dotted) (.cons (written_symbol status) .nil)
  have characters : ("(." ++ name ++ " status)").toList =
      '(' :: ((joinTexts " " ["." ++ name, "status"]).toList ++ [')']) := by
    simp [joinTexts, String.intercalate_cons_cons]
  have written : Written noStores (Event.memberForm name 0) ("(." ++ name ++ " status)") := by
    refine written_delimited .paren items characters fun printed => ?_
    rw [Sequence.delimited, source, printed]
    refine congrArg Except.ok (String.toList_inj.mp ?_)
    rw [characters]
    simp only [String.toList_append]
    rfl
  have reads := read_of_written (.cons written .nil)
  rwa [joinTexts, String.intercalate_singleton] at reads

end Value

namespace Entries

variable {κ α : Type} [BEq κ] [LawfulBEq κ] {key : κ} {entries : Entries κ α}

/-- Pairs with new keys, no two the same, are put at the end as they are. -/
theorem putAll_of_new
    {pairs : List (κ × α)} (distinct : (keys (entries ++ pairs)).Nodup) :
    putAll (· == ·) pairs entries = entries ++ pairs := by
  induction pairs generalizing entries with
  | nil => exact (List.append_nil entries).symm
  | cons pair rest inductionHypothesis =>
      obtain ⟨first, value⟩ := pair
      have isNew : id first ∉ (keys entries).map id := by
        rw [List.map_id]
        intro member
        rw [keys, List.map_append, List.map_cons] at distinct
        exact (List.nodup_append.mp distinct).2.2 first member first List.mem_cons_self rfl
      rw [putAll, List.foldl_cons, ← putAll, put_of_new (tells_id first _) isNew,
        inductionHypothesis, List.append_assoc]
      · rfl
      · rwa [List.append_assoc]

theorem erase_of_absent (absent : key ∉ keys entries) :
    erase (· == ·) key entries = entries := by
  induction entries with
  | nil => rfl
  | cons entry rest inductionHypothesis =>
      obtain ⟨stored, value⟩ := entry
      rw [keys_cons, List.mem_cons, not_or] at absent
      have different : ¬ (stored == key) = true := by
        simpa using Ne.symm absent.1
      rw [erase, if_neg different, inductionHypothesis absent.2]

end Entries

namespace Event

/-! ## Making an event -/

/-- The member that a key of a map stands for, if the key is a text. -/
def memberOf? (key : Value) : Option String := key.toText?.map memberName

/-- The members that the entries of a map stand for, in their order. -/
def named (entries : ValueEntries) : Entries String Value :=
  entries.filterMap fun entry => (memberOf? entry.1).map (·, entry.2)

theorem perform_display
    {key : Value} {text : String} (isText : key.toText? = some text) (heap : Heap) :
    (Action.display key).perform heap = (.ok text, heap) := by
  have isCurrent : heap.current key = key := by
    unfold Heap.current
    cases key with
    | str | keyword | symbol => split <;> rfl
    | _ => cases isText
  unfold Action.display Action.reading Heap.display
  simp only [Action.perform_get_bind, isCurrent, Value.display]
  split
  · next found => cases isText.symm.trans found; rfl
  · next found => cases isText.symm.trans found
  · next found => cases isText.symm.trans found

/-- The entries of a map are put one after the other under the names of their members. -/
theorem perform_members
    {entries : ValueEntries} (texts : ∀ entry ∈ entries, entry.1.toText?.isSome = true)
    (read : Entries String Value) (heap : Heap) :
    (members entries read).perform heap =
      (.ok (Entries.erase (· == ·) kindMember (Entries.putAll (· == ·) (named entries) read)),
        heap) := by
  induction entries generalizing read with
  | nil => rfl
  | cons entry rest inductionHypothesis =>
      obtain ⟨key, value⟩ := entry
      obtain ⟨text, isText⟩ := Option.isSome_iff_exists.mp (texts _ List.mem_cons_self)
      have restTexts := fun each member => texts each (List.mem_cons_of_mem _ member)
      rw [members, Action.perform_bind_ok (perform_display isText heap),
        inductionHypothesis restTexts]
      simp [named, memberOf?, isText, Entries.putAll]

theorem keys_named
    {entries : ValueEntries} (texts : ∀ entry ∈ entries, entry.1.toText?.isSome = true) :
    (Entries.keys (named entries)).map some = entries.map fun entry => memberOf? entry.1 := by
  induction entries with
  | nil => rfl
  | cons entry rest inductionHypothesis =>
      obtain ⟨key, value⟩ := entry
      obtain ⟨text, isText⟩ := Option.isSome_iff_exists.mp (texts _ List.mem_cons_self)
      have later := inductionHypothesis fun each member =>
        texts each (List.mem_cons_of_mem _ member)
      simpa [named, memberOf?, isText, Entries.keys] using later

/-- Names that no key may become: the kind of an event and the event itself are given beside
the map, and the others are what every object tells of itself. -/
def reservedMembers : List String :=
  [kindMember, "self", "__class__", "__dict__", "__weakref__"]

/-- Entries whose keys are names of symbols and become members of their own. -/
structure AreMembers (entries : ValueEntries) : Prop where
  legible : ∀ entry ∈ entries,
    ∃ name, entry.1.toText? = some name ∧ Value.Legible name.toList
  distinct : (entries.map fun entry => memberOf? entry.1).Nodup
  free : ∀ entry ∈ entries, ∀ name ∈ reservedMembers, memberOf? entry.1 ≠ some name

namespace AreMembers

variable {entries : ValueEntries} {name : String} {value : Value}

theorem texts (members : AreMembers entries) :
    ∀ entry ∈ entries, entry.1.toText?.isSome = true := by
  intro entry member
  obtain ⟨name, isText, -⟩ := members.legible entry member
  exact isText ▸ rfl

theorem not_mem_keys (members : AreMembers entries) (reserved : name ∈ reservedMembers) :
    name ∉ Entries.keys (named entries) := by
  intro member
  have among : some name ∈ entries.map fun entry => memberOf? entry.1 :=
    keys_named members.texts ▸ List.mem_map_of_mem member
  obtain ⟨entry, isEntry, isName⟩ := List.mem_map.mp among
  exact members.free entry isEntry name reserved isName

theorem nodup_keys (members : AreMembers entries) :
    (Entries.keys (named entries)).Nodup := by
  have distinct := members.distinct
  rw [← keys_named members.texts] at distinct
  exact List.Nodup.of_map some distinct

/-- The event of a map has the members of the map in their order, after its kind. -/
theorem perform_ofMap (members : AreMembers entries) (kind : Value) (birth : Nat) (heap : Heap) :
    (ofMap kind (.map entries birth)).perform heap =
      (.ok (.event heap.births .record ((kindMember, kind) :: named entries)),
        { heap with births := heap.births + 1 }) := by
  have fields : Entries.erase (· == ·) kindMember
      (Entries.putAll (· == ·) (named entries) []) = named entries := by
    rw [Entries.putAll_of_new members.nodup_keys, List.nil_append]
    exact Entries.erase_of_absent (members.not_mem_keys (by decide))
  have noSelf : Entries.has (· == ·) "self" (named entries) = false := by
    have absent : "self" ∉ Entries.keys (named entries) := members.not_mem_keys (by decide)
    rw [Entries.has, List.any_eq_false]
    intro field member same
    exact absent (List.mem_map.mpr ⟨field, member, beq_iff_eq.mp same⟩)
  rw [ofMap, Action.perform_bind_ok (perform_members members.texts [] heap), fields, noSelf]
  rfl

/-- A member is found under its name. -/
theorem eventMember (members : AreMembers entries) {key : Value}
    (member : (key, value) ∈ entries) (isText : key.toText? = some name)
    (kind receiver : Value) :
    Access.eventMember? .record ((kindMember, kind) :: named entries) receiver
      (memberName name) = some value := by
  have isMember : (memberName name, value) ∈ named entries :=
    List.mem_filterMap.mpr ⟨(key, value), member, by simp [memberOf?, isText]⟩
  have distinct : (Entries.keys ((kindMember, kind) :: named entries)).Nodup :=
    List.nodup_cons.mpr ⟨members.not_mem_keys List.mem_cons_self, members.nodup_keys⟩
  rw [Access.eventMember?, Entries.find?_of_mem distinct (List.mem_cons_of_mem _ isMember)]

end AreMembers

end Event

namespace Eval

/-! ## Reading a member -/

/-- No special form has a dot at the front of its name. -/
theorem ofForm?_of_dot
    {head : String} (dotted : head.toList.head? = some '.') (whole : List Value) :
    SpecialForm.ofForm? head whole = none := by
  unfold SpecialForm.ofForm?
  split
  all_goals first
    | rfl
    | cases dotted

/-- No abbreviation has a dot at the front of its name. -/
theorem expand?_of_dot
    {head : String} (dotted : head.toList.head? = some '.') (args : List Value) :
    expand? head args = none := by
  have other : ∀ entry ∈ abbreviations, (head != entry.1) = true := by
    intro entry member
    rw [bne_iff_ne]
    rintro rfl
    revert entry
    decide
  rw [expand?, List.lookup_eq_none_iff.mpr other]
  rfl

/-- Reading a member without arguments gives its value, or calls it if it can be called. -/
theorem perform_memberForm
    {frames owner scope birth : Nat} {name : String} {depth : Int} {heap : Heap}
    {target value : Value} (notEmpty : name.toList ≠ [])
    (shallow : depth < heap.maxDepth owner) (unlost : heap.left? birth = none)
    (isTarget : heap.lookup? scope (.str "status") = .ok (some target))
    (isMember : (Access.member? target (Event.memberName name)).perform heap =
      (.ok (some value), heap)) :
    (solve (frames + 2) (.evaluate owner scope (Event.memberForm name birth) depth)).perform
        heap =
      if Access.isCallable value then
        (callHost (solve (frames + 1)) ⟨owner, scope, depth + 1⟩ value []).perform heap
      else
        (.ok value, heap) := by
  obtain ⟨first, rest, spelled⟩ := List.exists_cons_of_ne_nil notEmpty
  have dotted : ("." ++ name).toList = '.' :: first :: rest := by
    rw [String.toList_append, spelled]
    rfl
  have isForm : (solve (frames + 2) (.evaluate owner scope
      (Event.memberForm name birth) depth)).perform heap =
      (useMember (solve (frames + 1)) ⟨owner, scope, depth + 1⟩ birth name
        [.symbol "status"]).perform heap := by
    have startsWithDot : ("." ++ name).toList.head? = some '.' := by rw [dotted]; rfl
    rw [solve, perform_evaluate_shallow _ (by omega), Event.memberForm,
      Heap.current_list unlost, List.map_cons, List.map_cons, List.map_nil,
      Heap.current_symbol, Heap.current_symbol, formAt, symbolCombination,
      ofForm?_of_dot startsWithDot, expand?_of_dot startsWithDot]
    simp only [dotted]
    rw [← spelled, String.ofList_toList]
    rfl
  have isStatus : (solve (frames + 1) (.evaluate owner scope (.symbol "status")
      (depth + 1))).perform heap = (.ok target, heap) :=
    perform_symbol (by decide) (by decide) (by omega) isTarget
  have isRead : (solve (frames + 1) (.read target (Event.memberName name))).perform heap =
      (.ok value, heap) := by
    rw [solve, step, readMember, Action.perform_bind_ok isMember]
    rfl
  have noArgs : (Action.upcoming birth 2 []).perform heap = (.ok [], heap) := by
    unfold Action.upcoming
    rw [Action.perform_get_bind, unlost]
    rfl
  rw [isForm, useMember, form, Action.perform_bind_ok isStatus, Action.perform_bind_ok isRead,
    Action.perform_bind_ok noArgs]
  change (if Access.isCallable value then
      callHost (solve (frames + 1)) ⟨owner, scope, depth + 1⟩ value []
    else Pure.pure value).perform heap = _
  split <;> rfl

end Eval

namespace Event

variable {entries : ValueEntries}

/-- An event that is made of a map is of the kind it was made with, and each member that is
no method is read back as it was. -/
theorem reads_back (members : AreMembers entries) (kind : EventKind) (birth : Nat) (heap : Heap) :
    ∃ event after, (ofMap (.kind kind) (.map entries birth)).perform heap = (.ok event, after) ∧
      kind? event = some kind ∧
      ∀ key value name, (key, value) ∈ entries → key.toText? = some name →
        Access.isCallable value = false →
        read ("(." ++ name ++ " status)").toList = .ok [memberForm name 0] ∧
          ∀ (later : Heap) (owner scope number : Nat) (depth : Int),
            later.lookup? scope (.str "status") = .ok (some event) →
            depth < later.maxDepth owner → later.left? number = none →
            (Eval.perform (.evaluate owner scope (memberForm name number) depth)).perform later =
              (.ok value, later) := by
  refine ⟨_, _, members.perform_ofMap (.kind kind) birth heap, rfl, ?_⟩
  intro key value name member isText notCallable
  obtain ⟨_, alsoText, legible⟩ := members.legible _ member
  obtain rfl : name = _ := Option.some.inj (isText.symm.trans alsoText)
  refine ⟨Value.read_memberForm legible, ?_⟩
  intro later owner scope number depth isStatus shallow unlost
  have notEmpty : name.toList ≠ [] := by
    intro empty
    rw [empty] at legible
    exact legible.visible rfl
  have isMember := members.eventMember member isText (.kind kind)
  obtain ⟨frames, isNext⟩ : ∃ frames, Eval.frameLimit = frames + 2 := ⟨99998, rfl⟩
  rw [Eval.perform, isNext, Eval.perform_memberForm notEmpty shallow unlost isStatus
    (congrArg (fun found => (Except.ok found, later)) (isMember _)), notCallable]
  rfl

/-- A heap with one evaluator and one scope, in which `status` is bound. -/
def statusHeap (status : Value) : Heap :=
  { Heap.empty with
    tables := #[[(.str "status", status)]]
    scopes := #[⟨.table 0, []⟩]
    evaluators := #[⟨{}, 0⟩] }

/-- Members of several kinds under keys of several kinds. -/
def mixedMembers : ValueEntries :=
  [(.keyword "device-number", .int 2), (.str "track", .map [(.keyword "bpm", .int 12800)] 7),
    (.symbol "on_air", .nil), (.str "5x", .list [.str "a", .kind .beat] 9)]

theorem areMembers_mixedMembers : AreMembers mixedMembers where
  legible := by
    have numbered : Value.Legible "device-number".toList := by decide +kernel
    have track : Value.Legible "track".toList := by decide +kernel
    have onAir : Value.Legible "on_air".toList := by decide +kernel
    have digit : Value.Legible "5x".toList := by decide +kernel
    simp only [mixedMembers, List.forall_mem_cons]
    exact ⟨⟨_, rfl, numbered⟩, ⟨_, rfl, track⟩, ⟨_, rfl, onAir⟩, ⟨_, rfl, digit⟩, by simp⟩
  distinct := by decide +kernel
  free := by
    simp only [mixedMembers, List.forall_mem_cons]
    decide +kernel

theorem maxDepth_statusHeap (status : Value) : (statusHeap status).maxDepth 0 = 200 := rfl

theorem reads_back_mixedMembers :
    AreMembers mixedMembers ∧
      ∃ event after, (ofMap (.kind .beat) (.map mixedMembers 4)).perform Heap.empty =
          (.ok event, after) ∧
        kind? event = some .beat ∧
        ∀ key value name, (key, value) ∈ mixedMembers → key.toText? = some name →
          (Eval.perform (.evaluate 0 0 (memberForm name 0) 0)).perform (statusHeap event) =
            (.ok value, statusHeap event) := by
  obtain ⟨event, after, made, isKind, readsBack⟩ :=
    reads_back areMembers_mixedMembers .beat 4 Heap.empty
  refine ⟨areMembers_mixedMembers, event, after, made, isKind, ?_⟩
  intro key value name member isText
  have plain : ∀ entry ∈ mixedMembers, Access.isCallable entry.2 = false := by
    simp only [mixedMembers, List.forall_mem_cons]
    decide
  have shallow : 0 < (statusHeap event).maxDepth 0 := by
    rw [maxDepth_statusHeap]
    decide
  exact (readsBack key value name member isText (plain _ member)).2 (statusHeap event) 0 0 0 0 rfl
    shallow rfl

/-- A member that is a keyword is taken for a method: it is called without arguments, which
a keyword does not take. -/
theorem reads_back_not_keyword :
    AreMembers [(.str "mode", .keyword "sync")] ∧
      ∃ event after, (ofMap (.kind .beat) (.map [(.str "mode", .keyword "sync")] 0)).perform
          Heap.empty = (.ok event, after) ∧
        (Eval.perform (.evaluate 0 0 (memberForm "mode" 0) 0)).perform (statusHeap event) =
          (.error (.failed .wrongType), statusHeap event) := by
  have members : AreMembers [(.str "mode", .keyword "sync")] :=
    { legible := by
        have mode : Value.Legible "mode".toList := by decide +kernel
        exact List.forall_mem_singleton.mpr ⟨_, rfl, mode⟩
      distinct := List.nodup_singleton _
      free := by
        rw [List.forall_mem_singleton]
        decide +kernel }
  refine ⟨members, _, _, members.perform_ofMap (.kind .beat) 0 Heap.empty, ?_⟩
  have isMember := members.eventMember List.mem_cons_self rfl (.kind .beat)
  obtain ⟨frames, isNext⟩ : ∃ frames, Eval.frameLimit = frames + 2 := ⟨99998, rfl⟩
  rw [Eval.perform, isNext, Eval.perform_memberForm (by decide)
    (by rw [maxDepth_statusHeap]; decide) rfl rfl
    (congrArg (fun found => (Except.ok found, _)) (isMember _))]
  rfl

end Event

end CueScript
