import CueScript.Proofs.Twin.Action
import CueScript.Store.Operation

/-!
# Access and stores in twin runs

What built-in functions do with values and stores ends alike in twin runs, if what they
call does.
-/

namespace CueScript

/-- Whether calls by built-in functions end alike. -/
def CallersTwin (pairing : Pairing) (call other : Caller) : Prop :=
  ∀ (function : Value) (args : List Value),
    Twin pairing (Value.rename pairing.numbers) (call function args)
      (other (function.rename pairing.numbers) (args.map (Value.rename pairing.numbers)))

open Value

variable {pairing : Pairing} {call other : Caller}

namespace Access

/-! ## Members -/

theorem findMember_rename (ρ : Renaming) (name : String) (members : List (String × Value)) :
    Entries.find? (· == ·) name (members.map (renameMember ρ)) =
      (Entries.find? (· == ·) name members).map (rename ρ) := by
  induction members with
  | nil => rfl
  | cons first rest inductionHypothesis =>
      obtain ⟨key, value⟩ := first
      by_cases same : (key == name) = true
      · simp [Entries.find?, same]
      · simpa [Entries.find?, same] using inductionHypothesis

theorem eventMember_rename
    (ρ : Renaming) (origin : EventClass) (members : List (String × Value)) (receiver : Value)
    (name : String) :
    eventMember? origin (members.map (renameMember ρ)) (receiver.rename ρ) name =
      (eventMember? origin members receiver name).map (rename ρ) := by
  rw [eventMember?, eventMember?, findMember_rename]
  cases Entries.find? (· == ·) name members with
  | some value => rfl
  | none =>
      simp only [Option.map_none]
      split <;> rfl

theorem closureMember_rename (ρ : Renaming) (closure : Value) (name : String) :
    closureMember? (closure.rename ρ) name =
      (closureMember? closure name).map (rename ρ) := by
  cases closure with
  | closure id shownName params rest body inside owner =>
      rw [rename_closure]
      simp only [closureMember?]
      split
      · rfl
      · simp [Function.comp_def]
      · cases rest <;> rfl
      · simp
      · rfl
      · simp
      · rfl
  | _ => simp [closureMember?]

/-- A map that is a view of a table. -/
theorem twin_view
    (together : ¬ pairing.apart) {table : Nat} (kept : pairing.aside table = none) :
    Twin pairing (rename pairing.numbers) (Action.change fun heap => heap.view table)
      (Action.change fun heap => heap.view (pairing.numbers.tables table)) :=
  .change fun _ _ like => like.view together kept

theorem twin_member?
    (value : Value) {name : String} (visible : pairing.Shows value name) :
    Twin pairing (Option.map (rename pairing.numbers)) (member? value name)
      (member? (value.rename pairing.numbers) name) := by
  have asMember : Twin pairing (Option.map (rename pairing.numbers))
      (Pure.pure (some (.member value name)))
      (Pure.pure (some (.member (value.rename pairing.numbers) name))) := .pure rfl
  have noMember : Twin pairing (Option.map (rename pairing.numbers))
      (Pure.pure none) (Pure.pure none) := .pure rfl
  cases value with
  | event id origin members =>
      rw [rename_event]
      refine .pure ?_
      rw [← rename_event]
      exact eventMember_rename pairing.numbers origin members _ name
  | store id =>
      rw [rename_store] at asMember ⊢
      unfold member?
      simp only
      split
      · exact .get_bind fun _ _ like => .pure (by rw [like.storeName]; rfl)
      · split
        · rename_i isData
          have together : ¬ pairing.apart := fun isApart => visible isApart isData
          refine .get_bind fun left right like => ?_
          rw [like.store]
          cases isStore : left.stores[id]? with
          | none => exact noMember
          | some store =>
              refine .bind (twin_view together (like.storesKept id store isStore)) ?_
              exact fun view => .pure rfl
        · split
          · exact asMember
          · exact noMember
  | map entries birth =>
      rw [rename_map] at asMember ⊢
      unfold member?
      simp only
      split
      · exact asMember
      · exact noMember
  | list items birth =>
      rw [rename_list] at asMember ⊢
      unfold member?
      simp only
      split
      · exact asMember
      · exact noMember
  | kind eventKind =>
      rw [rename_kind] at asMember ⊢
      unfold member?
      simp only
      split
      · exact .pure rfl
      · exact .pure rfl
      · exact .pure rfl
      · exact asMember
      · exact asMember
      · exact .pure (by rw [Option.map_map]; rfl)
  | constant constantName =>
      rw [rename_constant]
      unfold member?
      simp only
      split
      · exact .pure rfl
      · exact noMember
  | closure id shownName params rest body inside owner =>
      rw [rename_closure]
      unfold member?
      simp only
      split
      · have meets := visible.resolve_right fun different => different ‹_›
        exact .get_bind fun _ _ like => .pure (by rw [like.scopeValue meets]; rfl)
      · refine .pure ?_
        rw [← rename_closure]
        exact closureMember_rename pairing.numbers _ name
  | vector items birth =>
      rw [rename_vector]
      unfold member?
      simp only
      split
      · exact .pure (by simp)
      · exact noMember
  | quoted form =>
      rw [rename_quoted]
      unfold member?
      simp only
      split
      · exact .pure rfl
      · exact noMember
  | symbol text =>
      rw [rename_symbol] at asMember ⊢
      unfold member?
      simp only
      split
      · exact asMember
      · exact noMember
  | scope id =>
      rw [rename_scope] at asMember ⊢
      unfold member?
      simp only
      split
      · obtain ⟨tight, together⟩ : pairing.Open :=
          visible.1.resolve_right fun different => different rfl
        refine .get_bind fun left right like => ?_
        rw [like.scopes id (tight.unbacked.meets id)]
        cases left.scopes[id]? with
        | none => exact noMember
        | some scope =>
            obtain ⟨vars, outer⟩ := scope
            cases vars with
            | table table =>
                refine .bind (twin_view together (tight table)) ?_
                exact fun view => .pure rfl
            | inside holder => exact .pure rfl
            | absent given => exact noMember
      · have unbacked : pairing.Unbacked := visible.2.resolve_right fun different => different rfl
        refine .get_bind fun left right like => .pure ?_
        rw [like.scopes id (unbacked.meets id), unbacked.scope_eq]
        cases left.scopes[id]? with
        | none => rfl
        | some scope =>
            obtain ⟨vars, outer⟩ := scope
            cases outer <;> rfl
      · exact asMember
      · exact asMember
      · exact asMember
      · exact noMember
  | evaluator id =>
      rw [rename_evaluator] at asMember ⊢
      unfold member?
      simp only
      split
      · rename_i isConfig
        refine .get_bind fun left right like => ?_
        have same := (like.configs id).resolve_right fun lower => visible lower.1 isConfig
        rw [same]
        exact .pure rfl
      · split
        · exact asMember
        · exact noMember
  | settings config =>
      rw [rename_settings] at asMember ⊢
      unfold member?
      simp only
      split
      · exact .pure rfl
      · exact .pure rfl
      · exact .pure rfl
      · exact asMember
      · exact noMember
  | nil | bool _ | int _ | float _ _ | str _ | keyword _ | tuple _ | builtin _
  | instanceTest _ _ | unset _ | method _ _ | member _ _ =>
      simp only [rename]
      exact noMember

theorem twin_member
    (value : Value) {name : String} (visible : pairing.Shows value name) :
    Twin pairing (rename pairing.numbers) (member value name)
      (member (value.rename pairing.numbers) name) := by
  refine .bind (twin_member? value visible) fun found => ?_
  cases found with
  | none => exact .fail
  | some value => exact .pure rfl

theorem twin_callMember
    (calls : CallersTwin pairing call other) (value : Value) {name : String}
    (args : List Value) (plain : name ∉ ["_data", "vars", "parent", "config", "env"]) :
    Twin pairing (rename pairing.numbers) (callMember call value name args)
      (callMember other (value.rename pairing.numbers) name
        (args.map (rename pairing.numbers))) :=
  .bind (twin_member value (pairing.shows_of_plain plain value)) fun operation =>
    calls operation args

@[simp]
theorem isCallable_rename (ρ : Renaming) (value : Value) :
    isCallable (value.rename ρ) = isCallable value := by
  cases value <;> simp [isCallable]

/-! ## Collections -/

theorem twin_isPresent (value : Value) :
    Twin pairing (fun result => result) (isPresent value)
      (isPresent (value.rename pairing.numbers)) := by
  unfold isPresent
  cases value with
  | store id =>
      refine .get_bind fun left right like => .pure ?_
      rw [like.entries, List.isEmpty_map]
  | list items birth => exact .pure (by simp)
  | tuple items => exact .pure (by simp)
  | map entries birth => exact .pure (by simp)
  | _ => exact .pure rfl

theorem twin_items (value : Value) :
    Twin pairing (List.map (rename pairing.numbers)) (items value)
      (items (value.rename pairing.numbers)) := by
  unfold items
  cases value with
  | list items birth => exact .pure (by simp)
  | map entries birth => exact .pure (by simp)
  | store id =>
      refine .get_bind fun left right like => .pure ?_
      rw [like.entries, keys_rename]
  | tuple items => exact .pure (by simp)
  | vector items birth => exact .pure (by simp)
  | quoted form => exact .pure (by simp)
  | str text => exact .pure (map_rename_ofChars pairing.numbers text).symm
  | keyword text => exact .pure (map_rename_ofChars pairing.numbers text).symm
  | symbol text => exact .pure (map_rename_ofChars pairing.numbers text).symm
  | _ => exact .fail

theorem twin_itemsIfPresent (value : Value) :
    Twin pairing (List.map (rename pairing.numbers)) (itemsIfPresent value)
      (itemsIfPresent (value.rename pairing.numbers)) := by
  refine .bind (twin_isPresent value) fun present => ?_
  cases present with
  | true => exact twin_items value
  | false => exact .pure rfl

theorem twin_length (value : Value) :
    Twin pairing (fun result => result) (length value)
      (length (value.rename pairing.numbers)) :=
  .bind (twin_items value) fun _ => .pure (List.length_map ..)

@[simp]
theorem nthItem_rename (ρ : Renaming) (items : List Value) (position : Int) :
    nthItem? (items.map (rename ρ)) position = (nthItem? items position).map (rename ρ) := by
  unfold nthItem?
  rw [List.length_map]
  split
  · exact List.getElem?_map
  · split
    · exact List.getElem?_map
    · rfl

@[simp]
theorem positioned_rename (ρ : Renaming) (value : Value) :
    positioned? (value.rename ρ) = (positioned? value).map (List.map (rename ρ)) := by
  unfold positioned?
  cases value <;> simp [toTuple?, toText?]

theorem twin_positionedItem (collection key : Value) :
    Twin pairing (rename pairing.numbers)
      (match positioned? collection, key.toInt? with
        | some items, some position =>
            match nthItem? items position with
            | some item => (Pure.pure item : Action Value)
            | none => Action.fail (.indexOutOfBounds (toString position))
        | _, _ => Action.fail .wrongType)
      (match positioned? (collection.rename pairing.numbers),
          (key.rename pairing.numbers).toInt? with
        | some items, some position =>
            match nthItem? items position with
            | some item => (Pure.pure item : Action Value)
            | none => Action.fail (.indexOutOfBounds (toString position))
        | _, _ => Action.fail .wrongType) := by
  rw [positioned_rename, toInt_rename]
  cases positioned? collection with
  | none => exact .fail
  | some items =>
      cases key.toInt? with
      | none => exact .fail
      | some position =>
          simp only [Option.map_some, nthItem_rename]
          cases nthItem? items position with
          | none => exact .fail
          | some item => exact .pure rfl

theorem twin_itemAt (collection key : Value) :
    Twin pairing (rename pairing.numbers) (itemAt collection key)
      (itemAt (collection.rename pairing.numbers) (key.rename pairing.numbers)) := by
  have positioned : Twin pairing _ _ _ := twin_positionedItem collection key
  unfold itemAt
  cases collection with
  | map entries birth =>
      rw [rename_map]
      refine .bind (.ofExcept (get_rename pairing.numbers key entries)) fun found => ?_
      cases found with
      | none => exact .fail
      | some value => exact .pure rfl
  | _ => exact positioned

theorem twin_itemsAfterFirst (collection : Value) :
    Twin pairing (List.map (rename pairing.numbers)) (itemsAfterFirst collection)
      (itemsAfterFirst (collection.rename pairing.numbers)) := by
  unfold itemsAfterFirst
  rw [positioned_rename]
  cases positioned? collection with
  | none => exact .fail
  | some items => exact .pure (List.map_tail ..).symm

/-! ## Going through items -/

/-- How a step ends, as the right run has it. -/
def Progress.map {σ τ : Type} (image : σ → τ) : Progress σ → Progress τ
  | .more state => .more (image state)
  | .enough state => .enough (image state)

theorem twin_upcoming (collection : Value) (done : Nat) (rest : List Value) :
    Twin pairing (List.map (rename pairing.numbers)) (upcoming collection done rest)
      (upcoming (collection.rename pairing.numbers) done
        (rest.map (rename pairing.numbers))) := by
  unfold upcoming
  cases collection with
  | list items birth =>
      rw [rename_list]
      exact .upcoming birth done rest
  | map entries birth =>
      rw [rename_map]
      refine .get_bind fun left right like => ?_
      rw [List.length_map, like.hasChangedSize]
      split
      · exact .fail
      · exact .pure rfl
  | _ => exact .pure rfl

section Steps

variable {σ τ : Type} {step : σ → Value → Action (Progress σ)}
  {later : τ → Value → Action (Progress τ)}

theorem twin_goThrough
    (image : σ → τ) (collection : Value)
    (steps : ∀ state item, Twin pairing (Progress.map image) (step state item)
      (later (image state) (item.rename pairing.numbers)))
    (budget done : Nat) (rest : List Value) (state : σ) :
    Twin pairing image (goThrough collection step budget done rest state)
      (goThrough (collection.rename pairing.numbers) later budget done
        (rest.map (rename pairing.numbers)) (image state)) := by
  induction budget generalizing done rest state with
  | zero => exact .pure rfl
  | succ budget inductionHypothesis =>
      refine .bind (twin_upcoming collection done rest) fun coming => ?_
      cases coming with
      | nil => exact .pure rfl
      | cons item others =>
          refine .bind (steps state item) fun progress => ?_
          cases progress with
          | more next => exact inductionHypothesis (done + 1) others next
          | enough result => exact .pure rfl

theorem twin_overItems
    (image : σ → τ) (collection : Value) (found : List Value) (start : σ)
    (steps : ∀ state item, Twin pairing (Progress.map image) (step state item)
      (later (image state) (item.rename pairing.numbers))) :
    Twin pairing image (overItems collection found step start)
      (overItems (collection.rename pairing.numbers) (found.map (rename pairing.numbers))
        later (image start)) := by
  unfold overItems
  rw [List.length_map]
  exact twin_goThrough image collection steps _ 0 found start

end Steps

/-! ## Look-up -/

theorem twin_getter? (value : Value) :
    Twin pairing (Option.map (rename pairing.numbers)) (getter? value)
      (getter? (value.rename pairing.numbers)) := by
  refine .bind (twin_member? value (pairing.shows_of_plain (by decide) value)) fun found => ?_
  cases found with
  | none => exact .pure rfl
  | some getter => cases getter <;> simp only [Option.map_some, rename] <;> exact .pure (by simp)

theorem orElse_map {α β : Type} (f : α → β) (first second : Option α) :
    (first.map f <|> second.map f) = (first <|> second).map f := by
  cases first <;> rfl

theorem getD_map_rename (ρ : Renaming) (found : Option Value) (default : Value) :
    (found.map (rename ρ)).getD (default.rename ρ) = (found.getD default).rename ρ := by
  cases found <;> rfl

theorem getD_unset_rename (ρ : Renaming) (found : Option Value) :
    (found.map (rename ρ)).getD unset = (found.getD unset).rename ρ :=
  getD_map_rename ρ found unset

theorem answered_rename (ρ : Renaming) (id : Nat) (found : Option Value) :
    answered id (found.map (rename ρ)) = (answered id found).map (rename ρ) := by
  cases found with
  | none => rfl
  | some value =>
      rw [answered, answered, Option.map_some, Option.filter_some, Option.filter_some,
        isUnset_rename]
      split <;> rfl

theorem getD_nil_rename (ρ : Renaming) (found : Option Value) :
    (found.map (rename ρ)).getD .nil = (found.getD .nil).rename ρ :=
  getD_map_rename ρ found .nil

theorem twin_getPlainly
    (calls : CallersTwin pairing call other) (getter key : Value) (default : Option Value) :
    Twin pairing (Option.map (rename pairing.numbers)) (getPlainly call getter key default)
      (getPlainly other (getter.rename pairing.numbers) (key.rename pairing.numbers)
        (default.map (rename pairing.numbers))) := by
  have called : Twin pairing (Option.map (rename pairing.numbers))
      (do return some (← call getter [key, default.getD unset]))
      (do return some (← other (getter.rename pairing.numbers)
        [key.rename pairing.numbers, (default.map (rename pairing.numbers)).getD unset])) := by
    rw [getD_unset_rename]
    exact .bind (calls getter [key, default.getD unset]) fun value => .pure rfl
  have looked (entries : ValueEntries) : Twin pairing (Option.map (rename pairing.numbers))
      (do return (← Action.ofExcept (ValueEntries.get? entries key)) <|> default)
      (do return (← Action.ofExcept (ValueEntries.get?
        (entries.map (renameEntry pairing.numbers)) (key.rename pairing.numbers))) <|>
          default.map (rename pairing.numbers)) :=
    .bind (.ofExcept (get_rename pairing.numbers key entries)) fun value =>
      .pure (orElse_map _ value default)
  refine .bind (.current getter) fun found => ?_
  split
  · rename_i entries birth
    rw [rename_member, rename_map]
    exact looked entries
  · rename_i id
    rw [rename_member, rename_store]
    refine .get_bind fun left right like => ?_
    rw [like.entries]
    exact looked (left.entries id)
  · rename_i notMap notStore
    split
    · rename_i same
      cases found <;> simp only [rename, reduceCtorEq] at same
      rename_i receiver name
      cases receiver <;> simp [rename] at same
      exact (notMap _ _ (by rw [same.2])).elim
    · rename_i same
      cases found <;> simp only [rename, reduceCtorEq] at same
      rename_i receiver name
      cases receiver <;> simp [rename] at same
      exact (notStore _ (by rw [same.2])).elim
    · exact called

theorem twin_getWith
    (calls : CallersTwin pairing call other) (getter key : Value) (default : Option Value) :
    Twin pairing (Option.map (rename pairing.numbers)) (getWith call getter key default)
      (getWith other (getter.rename pairing.numbers) (key.rename pairing.numbers)
        (default.map (rename pairing.numbers))) := by
  have plainly := twin_getPlainly calls getter key default
  unfold getWith
  cases getter with
  | keyword name =>
      refine .bind (twin_getter? key) fun found => ?_
      cases found with
      | none => exact .pure rfl
      | some inner =>
          have inside := twin_getPlainly calls inner (.keyword name) default
          cases inner <;> simp only [Option.map_some, rename] at inside ⊢
          case keyword => exact .pure rfl
          all_goals exact inside
  | _ =>
      simp only [rename] at plainly ⊢
      exact plainly

/-- A getter is used, and where there is none, the default stands. -/
theorem twin_byGetter
    {α β : Type} {image : α → β} {use : Value → Action α} (value : Value) (default : α)
    (useOther : Value → Action β)
    (uses : ∀ getter, Twin pairing image (use getter)
      (useOther (getter.rename pairing.numbers))) :
    Twin pairing image
      (getter? value >>= fun found =>
        match found with
        | none => Pure.pure default
        | some getter => use getter)
      (getter? (value.rename pairing.numbers) >>= fun found =>
        match found with
        | none => Pure.pure (image default)
        | some getter => useOther getter) := by
  refine .bind (twin_getter? value) fun found => ?_
  cases found with
  | none => exact .pure rfl
  | some getter => exact uses getter

theorem twin_lookup
    (calls : CallersTwin pairing call other) (holder key : Value) (default : Option Value) :
    Twin pairing (Option.map (rename pairing.numbers)) (lookup call holder key default)
      (lookup other (holder.rename pairing.numbers) (key.rename pairing.numbers)
        (default.map (rename pairing.numbers))) := by
  refine .bind (.current holder) fun collection => ?_
  have byGetter := twin_byGetter collection default
    (fun getter => getWith other getter (key.rename pairing.numbers)
      (default.map (rename pairing.numbers)))
    fun getter => twin_getWith calls getter key default
  have atPosition (items : List Value) (position : Int) :
      Twin pairing (Option.map (rename pairing.numbers))
        (Pure.pure (nthItem? items position <|> default))
        (Pure.pure (nthItem? (items.map (rename pairing.numbers)) position <|>
          default.map (rename pairing.numbers))) := by
    rw [nthItem_rename]
    exact .pure (orElse_map _ _ default)
  cases collection with
  | nil => cases key <;> exact .pure rfl
  | list items birth =>
      rw [rename_list] at byGetter ⊢
      cases key with
      | int position => exact atPosition items position
      | _ => exact byGetter
  | tuple items =>
      rw [rename_tuple] at byGetter ⊢
      cases key with
      | int position => exact atPosition items position
      | _ => exact byGetter
  | vector items birth =>
      rw [rename_vector] at byGetter ⊢
      cases key with
      | int position =>
          have found := atPosition [.list items birth] position
          rw [List.map_singleton, rename_list] at found
          exact found
      | _ => exact byGetter
  | quoted form =>
      cases key with
      | int position => exact atPosition [form] position
      | _ => exact byGetter
  | _ => cases key <;> exact byGetter

theorem twin_lookupPath
    (calls : CallersTwin pairing call other) (collection path : Value) :
    Twin pairing (Option.map (rename pairing.numbers)) (lookupPath call collection path)
      (lookupPath other (collection.rename pairing.numbers)
        (path.rename pairing.numbers)) := by
  refine .bind (twin_items path) fun keys => ?_
  refine twin_overItems (Option.map (rename pairing.numbers)) path keys (some collection)
    fun found key => ?_
  cases found with
  | none => exact .pure rfl
  | some value =>
      refine .bind (twin_lookup calls value key none) fun next => ?_
      rw [answered_rename]
      cases answered 0 next with
      | none => exact .pure rfl
      | some value => exact .pure rfl

theorem twin_callKeyword
    (calls : CallersTwin pairing call other) (name : String) (args : List Value) :
    Twin pairing (rename pairing.numbers) (callKeyword call (.keyword name) args)
      (callKeyword other (.keyword name) (args.map (rename pairing.numbers))) := by
  have look (mapping default : Value) :=
    twin_byGetter mapping default
      (fun getter => other getter [.keyword name, default.rename pairing.numbers])
      fun getter => calls getter [.keyword name, default]
  rcases args with _ | ⟨mapping, _ | ⟨default, _ | ⟨next, rest⟩⟩⟩
  · exact .fail
  · exact look mapping .nil
  · exact look mapping default
  · exact .fail

/-- A step of following a path. -/
theorem twin_follow
    (calls : CallersTwin pairing call other) (value key : Value) (rest : List Value)
    (follow : ∀ found, Twin pairing (Option.map (rename pairing.numbers))
      (followPath call found rest)
      (followPath other (found.map (rename pairing.numbers))
        (rest.map (rename pairing.numbers)))) :
    Twin pairing (Option.map (rename pairing.numbers))
      (getter? value >>= fun found =>
        match found with
        | none => followPath call none rest
        | some getter => getWith call getter key (some unsetInStore) >>= fun next =>
            followPath call (answered 1 next) rest)
      (getter? (value.rename pairing.numbers) >>= fun found =>
        match found with
        | none => followPath other none (rest.map (rename pairing.numbers))
        | some getter =>
            getWith other getter (key.rename pairing.numbers) (some unsetInStore) >>=
              fun next =>
                followPath other (answered 1 next) (rest.map (rename pairing.numbers))) := by
  refine .bind (twin_getter? value) fun getter => ?_
  cases getter with
  | none => exact follow none
  | some getter =>
      refine .bind (twin_getWith calls getter key (some unsetInStore)) fun next => ?_
      rw [answered_rename]
      exact follow (answered 1 next)

theorem twin_followPath
    (calls : CallersTwin pairing call other) (found : Option Value) (path : List Value) :
    Twin pairing (Option.map (rename pairing.numbers)) (followPath call found path)
      (followPath other (found.map (rename pairing.numbers))
        (path.map (rename pairing.numbers))) := by
  induction path generalizing found with
  | nil =>
      unfold followPath
      exact .pure rfl
  | cons key rest inductionHypothesis =>
      have onward (value : Value) := twin_follow calls value key rest inductionHypothesis
      cases found with
      | none => exact .pure rfl
      | some value =>
          cases value with
          | nil => exact .pure rfl
          | _ => exact onward _

end Access

/-! ## Stores -/

namespace Store

theorem twin_contents (id : Nat) :
    Twin pairing (List.map (renameEntry pairing.numbers)) (contents id) (contents id) :=
  .get_bind fun _ _ like => .pure (like.entries id)

theorem twin_revise
    (id : Nat) {operation later : ValueEntries → Except Failure ValueEntries}
    (alike : ∀ entries, later (entries.map (renameEntry pairing.numbers)) =
      (operation entries).map (List.map (renameEntry pairing.numbers))) :
    Twin pairing (fun result => result) (revise id operation) (revise id later) :=
  .bind (twin_contents id) fun entries => .bind (.ofExcept (alike entries)) fun revised =>
    .modify fun _ _ like => like.setEntries id revised

theorem twin_find? (id : Nat) (key : Value) :
    Twin pairing (Option.map (rename pairing.numbers)) (find? id key)
      (find? id (key.rename pairing.numbers)) :=
  .bind (twin_contents id) fun entries => .ofExcept (get_rename pairing.numbers key entries)

theorem twin_get (id : Nat) (key default : Value) :
    Twin pairing (rename pairing.numbers) (get id key default)
      (get id (key.rename pairing.numbers) (default.rename pairing.numbers)) :=
  .bind (twin_find? id key) fun found =>
    .pure (Access.getD_map_rename pairing.numbers found default)

theorem twin_set (id : Nat) (key value : Value) :
    Twin pairing (rename pairing.numbers) (set id key value)
      (set id (key.rename pairing.numbers) (value.rename pairing.numbers)) :=
  .bind (twin_revise id fun entries => put_entries_rename pairing.numbers key value entries)
    fun _ => .pure rfl

theorem twin_remove (id : Nat) (key : Value) :
    Twin pairing (rename pairing.numbers) (remove id key)
      (remove id (key.rename pairing.numbers)) :=
  .bind (twin_contents id) fun entries =>
    .bind (.ofExcept (taken_rename pairing.numbers key entries)) fun previous =>
      .bind (twin_revise id fun entries => erase_entries_rename pairing.numbers key entries)
        fun _ => .pure (Access.getD_nil_rename pairing.numbers previous)

theorem twin_update
    (calls : CallersTwin pairing call other) (id : Nat) (key function : Value)
    (args : List Value) :
    Twin pairing (rename pairing.numbers) (update call id key function args)
      (update other id (key.rename pairing.numbers) (function.rename pairing.numbers)
        (args.map (rename pairing.numbers))) :=
  .bind (twin_get id key .nil) fun old => .bind (calls function (old :: args)) fun value =>
    twin_set id key value

theorem twin_compareAndSet (id : Nat) (key expected value : Value) :
    Twin pairing (fun result => result) (compareAndSet id key expected value)
      (compareAndSet id (key.rename pairing.numbers) (expected.rename pairing.numbers)
        (value.rename pairing.numbers)) := by
  refine .bind (twin_get id key .nil) fun present => ?_
  rw [equal_rename]
  split
  · exact .bind (twin_set id key value) fun _ => .pure rfl
  · exact .pure rfl

theorem twin_getIn
    (calls : CallersTwin pairing call other) (id : Nat) (path default : Value) :
    Twin pairing (rename pairing.numbers) (getIn call id path default)
      (getIn other id (path.rename pairing.numbers) (default.rename pairing.numbers)) := by
  refine .bind (Access.twin_isPresent path) fun present => ?_
  cases present with
  | false => exact .pure rfl
  | true =>
      refine .bind (Access.twin_itemAt path (.int 0)) fun start => ?_
      refine .bind (twin_find? id start) fun found => ?_
      refine .bind (Access.twin_itemsAfterFirst path) fun rest => ?_
      rw [Access.answered_rename]
      refine .bind (Access.twin_followPath calls (Access.answered 1 found) rest) fun result => ?_
      cases result with
      | none => exact .pure rfl
      | some value => cases value <;> simp only [Option.map_some, rename] <;> exact .pure (by simp)

theorem twin_clear (id : Nat) :
    Twin pairing (fun result => result) (clear id) (clear id) :=
  .modify fun _ _ like => like.setEntries id []

theorem twin_perform
    (calls : CallersTwin pairing call other) (id : Nat) (operation : String)
    (args : List Value) :
    Twin pairing (rename pairing.numbers) (perform call id operation args)
      (perform other id operation (args.map (rename pairing.numbers))) := by
  unfold perform
  split
  · exact twin_get id _ .nil
  · exact twin_get id _ _
  · exact twin_getIn calls id _ .nil
  · exact twin_getIn calls id _ _
  · exact twin_set id _ _
  · exact twin_remove id _
  · exact twin_update calls id _ _ _
  · exact .bind (twin_compareAndSet id _ _ _) fun _ => .pure rfl
  · exact .bind (twin_contents id) fun entries => .newMap entries
  · exact .bind (twin_clear id) fun _ => .pure rfl
  · split
    all_goals first | exact .fail | skip
    all_goals
      simp only [List.map_eq_cons_iff, List.map_eq_nil_iff] at *
      grind

end Store

end CueScript
