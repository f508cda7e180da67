import CueScript.Proofs.Ending.Forms
import CueScript.Proofs.Ending.Rank
import CueScript.Proofs.Run.Access

/-!
# Built-in functions that call others

What a built-in function does settles if all calls with arguments of a smaller rank do.

Only the items of a store can have any rank, so a store that is gone through by `apply` or
`reduce` is the exception.
-/

namespace CueScript

open Value

namespace Heap

theorem left_of_isUnchanged {heap : Heap} (unchanged : heap.isUnchanged = true) (birth : Nat) :
    heap.left? birth = none := by
  obtain ⟨-, noLosses⟩ := Bool.and_eq_true_iff.mp unchanged
  rw [left?, List.isEmpty_iff.mp noLosses]
  rfl

end Heap

/-! ## Access to values -/

namespace Access

variable {call : Nat → Fault → Caller}

/-- What is gone through is in the collection, unless that is a store. -/
theorem holdsParts_of_items
    {value : Value} {parts : List Value} {heap after : Heap}
    (ran : (items value).perform heap = (.ok parts, after)) :
    (∃ id, value = .store id) ∨ value.HoldsParts parts := by
  unfold items at ran
  split at ran
  · cases ran
    exact .inr (holdsParts_of_eq (extentAll_eq _).symm)
  · cases ran
    refine .inr (holdsParts_of_eq ?_)
    rw [extent, extentKeys_eq, Entries.keys, List.length_map]
  · exact .inl ⟨_, rfl⟩
  · split at ran
    · rename_i isTuple
      cases ran
      refine .inr (holdsParts_of_eq ?_)
      unfold toTuple? at isTuple
      split at isTuple
      · cases isTuple
        exact (extentAll_eq _).symm
      · cases isTuple
        simp [extent]
      · cases isTuple
        simp [extent]
      · cases isTuple
    · cases ran
      exact .inr (holdsParts_of_toText ‹_›)
    · cases ran

theorem holdsParts_of_itemsIfPresent
    {value : Value} {parts : List Value} {heap after : Heap}
    (ran : (itemsIfPresent value).perform heap = (.ok parts, after)) :
    (∃ id, value = .store id) ∨ value.HoldsParts parts := by
  unfold itemsIfPresent at ran
  rw [Action.perform_bind] at ran
  split at ran
  · rename_i present middle _
    cases present with
    | true => exact holdsParts_of_items ran
    | false =>
        cases ran
        exact .inr (.none value)
  · cases ran

/-- As long as no list has lost anything, what is still to come is the rest. -/
theorem eq_of_upcoming
    {collection : Value} {done : Nat} {rest coming : List Value} {heap after : Heap}
    (ran : (upcoming collection done rest).perform heap = (.ok coming, after)) :
    after = heap ∧ (heap.isUnchanged = true → coming = rest) := by
  unfold upcoming at ran
  split at ran
  · rename_i birth
    unfold Action.upcoming at ran
    rw [Action.perform_get_bind] at ran
    cases isLeft : heap.left? birth with
    | none =>
        rw [isLeft] at ran
        cases ran
        exact ⟨rfl, fun _ => rfl⟩
    | some left =>
        rw [isLeft] at ran
        cases ran
        refine ⟨rfl, fun unchanged => ?_⟩
        rw [Heap.left_of_isUnchanged unchanged] at isLeft
        cases isLeft
  · rw [Action.perform_get_bind] at ran
    split at ran
    · cases ran
    · cases ran
      exact ⟨rfl, fun _ => rfl⟩
  · cases ran
    exact ⟨rfl, fun _ => rfl⟩

theorem settles_goThrough
    {σ : Type} {step : Nat → Fault → σ → Value → Action (Progress σ)}
    (steps : ∀ state item, Settles fun frames cut => step frames cut state item)
    (collection : Value) (budget done : Nat) (rest : List Value) (state : σ) :
    Settles fun frames cut =>
      goThrough collection (step frames cut) budget done rest state := by
  induction budget generalizing done rest state with
  | zero => exact .const _
  | succ budget inductionHypothesis =>
      refine .bind (.const _) fun coming => ?_
      cases coming with
      | nil => exact .const _
      | cons item others =>
          refine .bind (steps state item) fun progress => ?_
          cases progress with
          | more next => exact inductionHypothesis (done + 1) others next
          | enough result => exact .const _

/-- Where every step stops as soon as a list has lost items, only the items from before have
to be gone through. -/
theorem settles_goThrough_of_stops
    {σ : Type} {fits : Value → Prop} {step : Nat → Fault → σ → Value → Action (Progress σ)}
    (steps : ∀ state item, fits item → Settles fun frames cut => step frames cut state item)
    (stops : ∀ heap : Heap, heap.isUnchanged = false → ∀ state item, ∃ fault after,
      EndsIn (fun frames cut => step frames cut state item) heap (.error fault, after))
    (collection : Value) (budget done : Nat) {rest : List Value}
    (restFits : ∀ item ∈ rest, fits item) (state : σ) :
    Settles fun frames cut =>
      goThrough collection (step frames cut) budget done rest state := by
  induction budget generalizing done rest state with
  | zero => exact .const _
  | succ budget inductionHypothesis =>
      intro heap
      refine EndsIn.bind (.const _ heap) fun coming after came => ?_
      cases coming with
      | nil => exact ⟨_, .const _ after⟩
      | cons item others =>
          obtain ⟨rfl, same⟩ := eq_of_upcoming came
          cases unchanged : after.isUnchanged with
          | false =>
              obtain ⟨fault, last, ends⟩ := stops after unchanged state item
              exact ends.bind fun _ _ same => nomatch same
          | true =>
              obtain rfl := same unchanged
              refine (steps state item (restFits item List.mem_cons_self) after).bind ?_
              intro progress
              cases progress with
              | more next =>
                  exact inductionHypothesis (done + 1)
                    (fun each member => restFits each (List.mem_cons_of_mem item member)) next
              | enough result => exact .const _

/-! ## Look-up -/

/-- Texts, keywords and `nil` have no operations. -/
theorem member_of_isInert {value : Value} (inert : value.isInert = true) (name : String) :
    member? value name = Pure.pure none := by
  cases value <;> first | rfl | cases inert

theorem settles_callMember
    {value : Value} {name : String} {args : List Value}
    (calls : value.isInert = false → ∀ operation, Settles fun frames cut =>
      call frames cut operation args) :
    Settles fun frames cut => callMember (call frames cut) value name args := by
  cases inert : value.isInert with
  | false => exact .bind (.const _) fun operation => calls inert operation
  | true =>
      unfold callMember member
      rw [member_of_isInert inert]
      exact .const _

/-- Whether a value stands for what is looked up: it is the key, or a keyword that looks
itself up in the key. -/
def StandsFor (key value : Value) : Prop := value = key ∨ ∃ name, value = .keyword name

theorem settles_getPlainly
    {getter key : Value} {default : Option Value}
    (calls : Settles fun frames cut => call frames cut getter [key, default.getD unset]) :
    Settles fun frames cut => getPlainly (call frames cut) getter key default := by
  refine .bind (.const _) fun present => ?_
  split
  · exact .const _
  · exact .const _
  · exact .bind calls fun _ => .const _

theorem settles_getWith
    {getter key : Value} {default : Option Value}
    (calls : ∀ inner head, StandsFor key head → Settles fun frames cut =>
      call frames cut inner [head, default.getD unset]) :
    Settles fun frames cut => getWith (call frames cut) getter key default := by
  unfold getWith
  split
  · refine .bind (.const _) fun found => ?_
    split
    · exact .const _
    · exact .const _
    · exact settles_getPlainly (calls _ _ (.inr ⟨_, rfl⟩))
  · exact settles_getPlainly (calls _ _ (.inl rfl))

theorem isInert_current (heap : Heap) (value : Value) :
    (heap.current value).isInert = value.isInert := by
  unfold Heap.current
  split
  · rfl
  · cases value with
    | list items birth =>
        rw [Value.current]
        split <;> rfl
    | vector items birth =>
        rw [Value.current]
        split <;> rfl
    | map entries birth =>
        rw [Value.current]
        split <;> rfl
    | _ => rfl

/-- A getter is used, and where there is none, the default stands. -/
theorem settles_byGetter
    {α : Type} (value : Value) (default : α) {use : Nat → Fault → Value → Action α}
    (uses : value.isInert = false → ∀ getter, Settles fun frames cut => use frames cut getter) :
    Settles fun frames cut => getter? value >>= fun found =>
      match found with
      | none => Pure.pure default
      | some getter => use frames cut getter := by
  cases inert : value.isInert with
  | true =>
      unfold getter?
      rw [member_of_isInert inert]
      exact .const _
  | false =>
      refine .bind (.const _) fun found => ?_
      cases found with
      | none => exact .const _
      | some getter => exact uses inert getter

theorem settles_lookup
    {holder key : Value} {default : Option Value}
    (calls : holder.isInert = false → ∀ inner head, StandsFor key head →
      Settles fun frames cut => call frames cut inner [head, default.getD unset]) :
    Settles fun frames cut => lookup (call frames cut) holder key default := by
  intro heap
  refine EndsIn.bind (.const _ heap) fun collection after present => ?_
  obtain ⟨rfl, rfl⟩ : heap.current holder = collection ∧ heap = after := by
    cases present
    exact ⟨rfl, rfl⟩
  have byGetter := settles_byGetter (heap.current holder) default fun inert getter =>
    show Settles fun frames cut => getWith (call frames cut) getter key default from
      settles_getWith (calls ((isInert_current heap holder).symm.trans inert))
  refine (show Settles _ from ?_) heap
  simp only
  split
  · exact .const _
  · exact .const _
  · split
    · exact .const _
    · exact byGetter
  · exact byGetter

theorem settles_lookupPath
    {collection path : Value}
    (calls : path.isVoid = false → ∀ inner head, Settles fun frames cut =>
      call frames cut inner [head, unset]) :
    Settles fun frames cut => lookupPath (call frames cut) collection path := by
  cases void : path.isVoid with
  | true =>
      cases path with
      | nil => exact .const (Action.fail .wrongType)
      | unset id => exact .const (Action.fail .wrongType)
      | _ => cases void
  | false =>
      refine .bind (.const _) fun keys => settles_goThrough (fun found key => ?_) path _ _ keys _
      cases found with
      | none => exact .const _
      | some value =>
          refine .bind (settles_lookup fun _ inner head _ => calls void inner head) fun next => ?_
          cases answered 0 next with
          | none => exact .const _
          | some value => exact .const _

theorem settles_callKeyword
    {name : String} {args : List Value}
    (calls : ∀ operation inner, rank inner < rank args → Settles fun frames cut =>
      call frames cut operation inner) :
    Settles fun frames cut => callKeyword (call frames cut) (.keyword name) args := by
  have look (mapping default : Value)
      (below : mapping.isInert = false → rank [.keyword name, default] < rank args) :=
    settles_byGetter mapping default fun inert getter =>
      calls getter [.keyword name, default] (below inert)
  unfold callKeyword
  split
  · refine look _ _ fun notInert => ?_
    rw [rank_void _ rfl, rank_single_of_plain notInert]
    exact Nat.lt_succ_self 1
  · rename_i mapping default
    refine look _ _ fun notInert => ?_
    cases void : default.isVoid with
    | true => exact rank_lt_of_two notInert (.inr ⟨name, rfl⟩) void
    | false =>
        rw [rank_pair _ void, rank_pair _ void, weight_pair_of_plain _ notInert]
        simp only [weight]
        omega
  · exact .const _

end Access

/-! ## Stores -/

namespace Store

variable {call : Nat → Fault → Caller}

/-- Whether built-in functions look for an operation of stores. -/
def isCommon (operation : String) : Bool := operation != "get_in"

theorem settles_perform
    {id : Nat} {operation : String} {args : List Value}
    (common : isCommon operation = true)
    (calls : ∀ function inner, (Access.isCallable function = true → rank inner < rank args) →
      Settles fun frames cut => call frames cut function inner) :
    Settles fun frames cut => perform (call frames cut) id operation args := by
  unfold perform
  split
  · exact .const _
  · exact .const _
  · cases common
  · cases common
  · exact .const _
  · exact .const _
  · rename_i key function rest
    refine .bind (.const _) fun old => .bind (calls function _ fun callable => ?_) fun _ => .const _
    cases rest with
    | nil =>
        have notVoid : function.isVoid = false := by
          cases function <;> first | rfl | cases callable
        rw [rank_pair _ notVoid]
        exact Nat.lt_of_le_of_lt (rank_single_le old) (by omega)
    | cons next others =>
        refine Nat.lt_of_le_of_lt (rank_le _) ?_
        rw [rank_of_several (by simp)]
        simp only [List.length_cons, List.tail_cons, extents_cons]
        omega
  · exact .const _
  · exact .const _
  · exact .const _
  · exact .const _

end Store

/-! ## Collections -/

namespace Collection

variable {call : Nat → Fault → Caller}

theorem settles_entriesOf
    (bare : ∀ operation, Settles fun frames cut => call frames cut operation [])
    (value : Value) :
    Settles fun frames cut => entriesOf (call frames cut) value := by
  unfold entriesOf
  split
  · exact .const _
  · exact .const _
  · refine .bind (.const _) fun found => ?_
    split
    · exact .const _
    · exact .bind (bare _) fun _ => .bind (.const _) fun _ => .const _
  · exact .const _

theorem settles_assoc
    (bare : ∀ operation, Settles fun frames cut => call frames cut operation [])
    (value : Value) (args : List Value) :
    Settles fun frames cut => assoc (call frames cut) value args := by
  unfold assoc
  split
  · exact .const _
  · exact .bind (settles_entriesOf bare value) fun _ => .const _

theorem settles_dissoc
    (bare : ∀ operation, Settles fun frames cut => call frames cut operation [])
    (value : Value) (keys : List Value) :
    Settles fun frames cut => dissoc (call frames cut) value keys :=
  .bind (settles_entriesOf bare value) fun _ => .const _

theorem settles_listed
    (bare : ∀ operation, Settles fun frames cut => call frames cut operation [])
    (operation : String) (collection : Value) :
    Settles fun frames cut => listed (call frames cut) operation collection := by
  refine .bind (.const _) fun present => ?_
  cases present with
  | true =>
      exact .bind (Access.settles_callMember fun _ => bare) fun _ => .bind (.const _)
        fun _ => .const _
  | false => exact .const _

/-! ### Going through collections -/

theorem settles_overPresent
    {σ τ : Type} {collection : Value} {step : Nat → Fault → σ → Value → Action (Access.Progress σ)}
    (steps : collection.isVoid = false → ∀ state item, Settles fun frames cut =>
      step frames cut state item)
    (start : σ) (next : σ → Action τ) :
    Settles fun frames cut => Access.itemsIfPresent collection >>= fun items =>
      Access.overItems collection items (step frames cut) start >>= next := by
  cases void : collection.isVoid with
  | true =>
      cases collection with
      | nil => exact .const (next start)
      | unset id => exact .const (Action.fail .wrongType)
      | _ => cases void
  | false =>
      exact .bind (.const _) fun items => .bind
        (Access.settles_goThrough (steps void) collection _ _ items start) fun _ => .const _

theorem settles_mapItems
    {function collection : Value}
    (calls : collection.isVoid = false → ∀ item, Settles fun frames cut =>
      call frames cut function [item]) :
    Settles fun frames cut => mapItems (call frames cut) function collection :=
  settles_overPresent (fun notVoid _ item => .bind (calls notVoid item) fun _ => .const _) _ _

theorem settles_filterItems
    {test collection : Value}
    (calls : collection.isVoid = false → ∀ item, Settles fun frames cut =>
      call frames cut test [item]) :
    Settles fun frames cut => filterItems (call frames cut) test collection :=
  settles_overPresent (fun notVoid _ item => .bind (calls notVoid item) fun _ => .const _) _ _

theorem settles_someItem
    {test collection : Value}
    (calls : collection.isVoid = false → ∀ item, Settles fun frames cut =>
      call frames cut test [item]) :
    Settles fun frames cut => someItem (call frames cut) test collection := by
  cases void : collection.isVoid with
  | true =>
      cases collection with
      | nil => exact .const (Pure.pure Value.nil)
      | unset id => exact .const (Action.fail .wrongType)
      | _ => cases void
  | false =>
      refine .bind (.const _) fun items => ?_
      exact Access.settles_goThrough
        (fun _ item => .bind (calls void item) fun _ => .const _) collection _ _ items _

/-- Whether nothing is called any more as soon as a list has lost items. -/
def Stops (call : Nat → Fault → Caller) : Prop :=
  ∀ heap : Heap, heap.isUnchanged = false → ∀ function args, ∃ fault after,
    EndsIn (fun frames cut => call frames cut function args) heap (.error fault, after)

theorem settles_combining
    {function : Value} {fits : Value → Prop}
    (stops : Stops call)
    (calls : ∀ result item, fits item → Settles fun frames cut =>
      call frames cut function [result, item])
    (collection : Value) (budget done : Nat) {rest : List Value}
    (restFits : ∀ item ∈ rest, fits item) (start : Value) :
    Settles fun frames cut =>
      Access.goThrough collection (combineStep (call frames cut) function) budget done rest
        start := by
  refine Access.settles_goThrough_of_stops
    (fun result item itemFits => .bind (calls result item itemFits) fun _ => .const _)
    (fun heap changed result item => ?_) collection budget done restFits start
  obtain ⟨fault, after, enough, ends⟩ := stops heap changed function [result, item]
  exact ⟨fault, after, enough, fun frames above cut =>
    Action.perform_bind_error (ends frames above cut)⟩

theorem settles_reduce
    {function : Value} {args : List Value}
    (stops : Stops call)
    (calls : ∀ inner innerArgs,
      (Access.isCallable inner = true → rank innerArgs < rank (function :: args)) →
        Settles fun frames cut => call frames cut inner innerArgs)
    (spreads : ∀ id, (function :: args).getLast? = some (.store id) → ∀ inner innerArgs,
      Settles fun frames cut => call frames cut inner innerArgs) :
    Settles fun frames cut => reduce (call frames cut) function args := by
  unfold reduce
  split
  · rename_i collection
    intro heap
    refine EndsIn.bind (.const _ heap) fun items after ran => ?_
    cases items with
    | nil => exact ⟨_, .const _ after⟩
    | cons item rest =>
        rcases Access.holdsParts_of_items ran with ⟨id, rfl⟩ | holds
        · exact settles_combining stops
            (fun _ _ _ => spreads id rfl function _) _ _ _ (fun _ _ => trivial) item after
        · refine settles_combining stops (fun result each fits => calls function _ ?_) _ _ _
            holds.later item after
          intro callable
          have notVoid : collection.isVoid = false := by
            cases void : collection.isVoid with
            | false => rfl
            | true =>
                rw [extent_of_isVoid void] at fits
                omega
          have above := weight_pair_of_callable collection callable
          refine Nat.lt_of_le_of_lt (rank_le [result, each]) ?_
          rw [rank_pair function notVoid]
          simp only [List.length_cons, List.length_nil, List.tail_cons, extents_cons,
            extents_nil]
          omega
  · rename_i start collection
    intro heap
    refine EndsIn.bind (.const _ heap) fun items after ran => ?_
    rcases Access.holdsParts_of_items ran with ⟨id, rfl⟩ | holds
    · exact settles_combining stops
        (fun _ _ _ => spreads id rfl function _) _ _ _ (fun _ _ => trivial) start after
    · refine settles_combining stops (fun result each fits => calls function _ fun _ => ?_)
        _ _ _ holds.each start after
      refine Nat.lt_of_le_of_lt (rank_le [result, each]) ?_
      rw [rank_of_several (by simp)]
      simp only [List.length_cons, List.length_nil, List.tail_cons, extents_cons, extents_nil]
      omega
  · exact .const _

theorem settles_apply
    {function : Value} {args : List Value}
    (calls : ∀ inner innerArgs,
      (Access.isCallable inner = true → rank innerArgs < rank (function :: args)) →
        Settles fun frames cut => call frames cut inner innerArgs)
    (spreads : ∀ id, (function :: args).getLast? = some (.store id) → ∀ inner innerArgs,
      Settles fun frames cut => call frames cut inner innerArgs) :
    Settles fun frames cut => apply (call frames cut) function args := by
  unfold apply
  split
  · exact calls function [] fun _ => rank_pos function args
  · rename_i last isLast
    intro heap
    refine EndsIn.bind (.const _ heap) fun more after ran => ?_
    rcases Access.holdsParts_of_itemsIfPresent ran with ⟨id, rfl⟩ | holds
    · have isStore : (function :: args).getLast? = some (.store id) := by
        rw [List.getLast?_cons, isLast]
        rfl
      exact spreads id isStore function _ after
    · exact calls function _ (fun callable => rank_spread_lt callable isLast holds) after

end Collection

/-! ## Devices -/

namespace Device

variable {call : Nat → Fault → Caller}

theorem settles_read
    (bare : ∀ operation, Settles fun frames cut => call frames cut operation [])
    (value : Value) (name : String) :
    Settles fun frames cut => read (call frames cut) value name := by
  refine .bind (.const _) fun found => ?_
  cases Access.isCallable found with
  | true => exact bare found
  | false => exact .const _

theorem settles_trackSourceSlot
    (bare : ∀ operation, Settles fun frames cut => call frames cut operation [])
    (status : Value) :
    Settles fun frames cut => trackSourceSlot (call frames cut) status :=
  .bind (settles_read bare status _) fun _ => .const _

theorem settles_trackType
    (bare : ∀ operation, Settles fun frames cut => call frames cut operation [])
    (status : Value) :
    Settles fun frames cut => trackType (call frames cut) status :=
  .bind (settles_read bare status _) fun _ => .const _

/-- Whether all calls with little to go through settle. -/
def SmallSettle (call : Nat → Fault → Caller) : Prop :=
  ∀ function args, rank args ≤ 3 → Settles fun frames cut => call frames cut function args

theorem SmallSettle.bare (small : SmallSettle call) (operation : Value) :
    Settles fun frames cut => call frames cut operation [] :=
  small operation [] (Nat.zero_le 3)

theorem SmallSettle.probe
    (small : SmallSettle call) (operation key : Value) {default : Value}
    (void : default.isVoid = true) :
    Settles fun frames cut => call frames cut operation [key, default] :=
  small operation _ (Nat.le_succ_of_le (rank_void_le key void))

theorem settles_lookup
    (small : SmallSettle call) (collection key : Value) :
    Settles fun frames cut => lookup (call frames cut) collection key :=
  .bind (Access.settles_lookup fun _ inner head _ => small.probe inner head rfl) fun _ => .const _

theorem settles_trackMatches
    (small : SmallSettle call) (status globals source number : Value) :
    Settles fun frames cut =>
      trackMatches (call frames cut) status globals source number := by
  refine .bind (settles_lookup small globals source) fun media => ?_
  refine .bind (settles_read small.bare status _) fun player => ?_
  refine .bind (settles_lookup small media _) fun mounted => .bind (.const _) fun same => ?_
  cases same with
  | false => exact .const _
  | true =>
      refine .bind (settles_trackSourceSlot small.bare status) fun slot => ?_
      refine .bind (settles_lookup small media _) fun mountedSlot => .bind (.const _) fun same => ?_
      cases same with
      | false => exact .const _
      | true => exact .bind (settles_read small.bare status _) fun _ => .const _

theorem settles_describe
    (small : SmallSettle call) (locals describer track : Value) :
    Settles fun frames cut => describe (call frames cut) locals describer track :=
  .bind (.const _) fun operation =>
    .bind (small describer [track] (Nat.le_succ_of_le (rank_single_le track))) fun description =>
      .bind (small operation _ (rank_text_le _ description)) fun _ => .const _

theorem settles_withdraw
    (small : SmallSettle call) (locals : Value) :
    Settles fun frames cut => withdraw (call frames cut) locals :=
  .bind (Access.settles_callMember fun _ operation =>
    small operation _ (Nat.le_succ_of_le (rank_single_le _))) fun _ => .const _

theorem settles_findTrack
    (small : SmallSettle call) (status locals globals source describer : Value) :
    Settles fun frames cut =>
      findTrack (call frames cut) status locals globals source describer := by
  refine .bind (settles_read small.bare status _) fun player => ?_
  refine .bind (settles_trackSourceSlot small.bare status) fun slot => ?_
  refine .bind (settles_read small.bare status _) fun number => ?_
  refine .bind (Access.settles_lookupPath fun _ inner head => small.probe inner head rfl) ?_
  intro found
  split
  · exact .const _
  · exact .bind (settles_withdraw small locals) fun _ => .const _
  · simp only
    split
    · exact .bind (settles_describe small locals _ _) fun _ => .const _
    · exact .bind (settles_withdraw small locals) fun _ => .const _

end Device

/-! ## Built-in functions -/

namespace Call

variable {call : Nat → Fault → Caller}

/-- Whether `apply` or `reduce` goes through a store. -/
def GoesThrough (function : Builtin) (args : List Value) (id : Nat) : Prop :=
  (function = .apply ∨ function = .reduce) ∧ args.getLast? = some (.store id)

/-- Whether what a built-in function calls with some arguments settles: whatever has a
smaller rank, and anything where a store is gone through. -/
structure HandsOn (call : Nat → Fault → Caller) (function : Builtin) (args : List Value) :
    Prop where
  below : ∀ inner innerArgs, (Access.isCallable inner = true → rank innerArgs < rank args) →
    Settles fun frames cut => call frames cut inner innerArgs
  stops : Collection.Stops call
  spreads : ∀ id, GoesThrough function args id → ∀ inner innerArgs,
    Settles fun frames cut => call frames cut inner innerArgs

theorem HandsOn.bare
    {function : Builtin} {first : Value} {rest : List Value}
    (handsOn : HandsOn call function (first :: rest)) (operation : Value) :
    Settles fun frames cut => call frames cut operation [] :=
  handsOn.below operation [] fun _ => rank_pos first rest

theorem HandsOn.small
    {function : Builtin} {args : List Value}
    (handsOn : HandsOn call function args) (several : 3 ≤ args.length) :
    Device.SmallSettle call := by
  intro operation inner isSmall
  refine handsOn.below operation inner fun _ => ?_
  rw [rank_of_several several]
  omega

theorem rank_single_lt
    {first second item : Value} (notVoid : second.isVoid = false) :
    rank [item] < rank [first, second] := by
  rw [rank_pair first notVoid]
  exact Nat.lt_of_le_of_lt (rank_single_le item) (by omega)

theorem settles_performCollection
    {function : Builtin} {args : List Value} (handsOn : HandsOn call function args) :
    Settles fun frames cut => performCollection (call frames cut) function args := by
  obtain ⟨below, stops, spreads⟩ := id handsOn
  unfold performCollection
  split
  · refine .bind (Access.settles_lookup fun notInert inner head stands => ?_) fun _ => .const _
    exact below inner _ fun _ => rank_lt_of_two notInert stands rfl
  · refine .bind (Access.settles_lookup fun _ inner head _ => ?_) fun _ => .const _
    exact below inner _ fun _ => rank_pair_lt head _ _ _
  · refine .bind (Access.settles_lookupPath fun notVoid inner head => ?_) fun _ => .const _
    refine below inner _ fun _ => Nat.lt_of_le_of_lt (rank_void_le head rfl) ?_
    rw [rank_pair _ notVoid]
    omega
  · refine .bind (Access.settles_lookupPath fun _ inner head => ?_) fun _ => .const _
    exact (handsOn.small (Nat.le_refl 3)).probe inner head rfl
  · exact .const _
  · exact .const _
  · exact Collection.settles_assoc handsOn.bare _ _
  · exact Collection.settles_dissoc handsOn.bare _ _
  · exact .const _
  · exact .const _
  · exact .const _
  · exact .const _
  · exact .const _
  · exact .const _
  · exact .const _
  · exact .const _
  · exact Collection.settles_listed handsOn.bare _ _
  · exact Collection.settles_listed handsOn.bare _ _
  · exact Collection.settles_mapItems fun notVoid item =>
      below _ _ fun _ => rank_single_lt notVoid
  · exact Collection.settles_filterItems fun notVoid item =>
      below _ _ fun _ => rank_single_lt notVoid
  · exact Collection.settles_someItem fun notVoid item =>
      below _ _ fun _ => rank_single_lt notVoid
  · exact Collection.settles_reduce stops below fun id isStore => spreads id ⟨.inr rfl, isStore⟩
  · exact Collection.settles_apply below fun id isStore => spreads id ⟨.inl rfl, isStore⟩
  · exact .const _

theorem settles_performDevice
    {function : Builtin} {args : List Value} (handsOn : HandsOn call function args) :
    Settles fun frames cut => performDevice (call frames cut) function args := by
  obtain ⟨below, -, -⟩ := id handsOn
  unfold performDevice
  split
  · exact .const _
  · exact .const _
  · exact .const _
  · exact Device.settles_trackSourceSlot handsOn.bare _
  · exact Device.settles_trackType handsOn.bare _
  · exact .bind (Device.settles_trackMatches (handsOn.small (by simp)) _ _ _ _) fun _ => .const _
  · exact Device.settles_findTrack (handsOn.small (by simp)) _ _ _ _ _
  · exact Device.settles_findTrack (handsOn.small (by simp)) _ _ _ _ _
  · exact Access.settles_callMember fun notInert operation =>
      below operation _ fun _ => rank_lt_of_two notInert (.inl rfl) rfl
  · exact Access.settles_callMember fun _ operation =>
      below operation _ fun _ => rank_lt_cons _ (Nat.le_refl 2)
  · exact Access.settles_callMember fun _ operation =>
      below operation _ fun _ => rank_lt_cons _ (Nat.le_refl 2)
  · rename_i store key
    refine Access.settles_callMember fun notInert operation => below operation _ fun _ => ?_
    cases void : key.isVoid with
    | true =>
        rw [rank_void store void, notInert, rank_single_of_isInert (isInert_of_isVoid void)]
        exact Nat.lt_succ_self 1
    | false => exact rank_single_lt void
  · exact Access.settles_callMember fun _ operation =>
      below operation _ fun _ => rank_lt_cons _ (by simp)
  · exact Access.settles_callMember fun _ operation =>
      below operation _ fun _ => rank_lt_cons _ (by simp)
  · rename_i locals description
    refine .bind (.bind (Access.settles_callMember fun notInert operation => ?_) fun _ =>
      .const _) fun _ => .const _
    refine below operation _ fun _ => ?_
    cases void : description.isVoid with
    | true =>
        rw [rank_void locals void, notInert, Device.descriptionKey, rank_void _ void]
        exact Nat.lt_succ_self 1
    | false =>
        refine Nat.lt_of_le_of_lt (rank_text_le _ _) ?_
        rw [rank_pair _ void, weight_pair_of_plain _ notInert]
        omega
  · exact .const _

/-- What a built-in function does settles if what it calls does. -/
theorem settles_perform
    {function : Builtin} {args : List Value} (handsOn : HandsOn call function args) :
    Settles fun frames cut => perform (call frames cut) function args := by
  unfold perform
  split
  · exact .const _
  · exact .const _
  · exact .const _
  · exact settles_performCollection handsOn
  · exact settles_performDevice handsOn

end Call

end CueScript
