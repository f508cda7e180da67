import CueScript.Proofs.Extract.Seclusion
import CueScript.Proofs.Parting.Builtin

/-!
# Where forms are evaluated when scopes part

Both runs evaluate a form either in a scope that they share, and then any form, or each in a
scope of its own that faces that of the other run, and then only forms of the terms.

Scopes that face each other are the two that a comparison starts from, and those that are
opened inside such scopes: these have the same number and the same table, but other scopes
around them.  As long as the first two have the same variables under the names of the terms,
so have any that face each other.
-/

namespace CueScript

open Value

variable {terms : Terms}

/-! ## Forms of the terms -/

namespace Vocabulary

variable {vocabulary : Vocabulary}

mutual

theorem form_current
    {holdings : Holdings} (unnumbered : holdings.items 0 = none) (item : Value)
    (isForm : vocabulary.Form item) :
    vocabulary.Form (item.current holdings) := by
  cases item with
  | list items birth =>
      rw [Value.current]
      rcases isForm with numbered | ⟨rfl, areForms⟩
      · split <;> exact .inl numbered
      · rw [unnumbered]
        exact .inr ⟨rfl, allForms_current unnumbered items areForms⟩
  | vector items birth =>
      rw [Value.current]
      rcases isForm with numbered | ⟨rfl, areForms⟩
      · split <;> exact .inl numbered
      · rw [unnumbered]
        exact .inr ⟨rfl, allForms_current unnumbered items areForms⟩
  | map entries birth =>
      rw [Value.current]
      split <;> exact trivial
  | symbol name => exact isForm
  | _ => exact trivial

theorem allForms_current
    {holdings : Holdings} (unnumbered : holdings.items 0 = none) (items : List Value)
    (areForms : vocabulary.AllForms items) :
    vocabulary.AllForms (Value.currentItems holdings items) := by
  cases items with
  | nil => exact trivial
  | cons item rest =>
      exact ⟨form_current unnumbered item areForms.1,
        allForms_current unnumbered rest areForms.2⟩

end

/-- Whether a form may be evaluated: where the runs are in scopes of their own, it has to be
a form of the vocabulary. -/
def Allows (vocabulary : Vocabulary) (own : Bool) (form : Value) : Prop :=
  own = true → vocabulary.Form form

/-- What evaluation needs of the names that may be looked up. -/
structure Closed (vocabulary : Vocabulary) : Prop where
  noFunctions : ¬ vocabulary.names "fn"
  expansions : ∀ head symbols, vocabulary.names head → abbreviations.lookup head = some symbols →
    ∀ name ∈ symbols, vocabulary.names name

theorem allows_expansion
    (closed : vocabulary.Closed) {own : Bool} {head : String} {args : List Value}
    {expansion : Value} (headAllowed : vocabulary.Allows own (.symbol head))
    (argsAllowed : ∀ arg ∈ args, vocabulary.Allows own arg)
    (isExpansion : expand? head args = some expansion) :
    vocabulary.Allows own expansion := by
  intro isOwn
  obtain ⟨symbols, isFound, rfl⟩ := Option.map_eq_some_iff.mp isExpansion
  refine .inr ⟨rfl, allForms_iff.mpr fun item member => ?_⟩
  rcases List.mem_append.mp member with isSymbol | isArg
  · obtain ⟨name, isName, rfl⟩ := List.mem_map.mp isSymbol
    exact closed.expansions head symbols (headAllowed isOwn) isFound name isName
  · exact argsAllowed item isArg isOwn

end Vocabulary

namespace Parting

variable {parting : Parting terms}

theorem Fits.form_current
    {heap : Heap} (fits : parting.Fits heap) {item : Value} (isForm : terms.Form item) :
    terms.Form (heap.current item) := by
  unfold Heap.current
  split
  · exact isForm
  · refine Vocabulary.form_current ?_ item isForm
    unfold Heap.present
    generalize (heap.views.length + 1) * (heap.losses.length + 1) = budget
    cases budget with
    | zero => rfl
    | succ budget =>
        change (heap.left? 0).map _ = none
        rw [fits.unnumbered]
        rfl

/-- The items of a form are forms. -/
theorem forms_of_sequence
    {value : Value} {items : List Value} (known : parting.Knows value) {own : Bool}
    (allowed : terms.Allows own value) (isSequence : value.sequence? = some items) :
    ∀ item ∈ items, terms.Allows own item := by
  have forms {birth : Nat} (lists : parting.bounds.Lists birth items)
      (areForms : own = true → terms.lists birth ∨ birth = 0 ∧ terms.AllForms items) :
      ∀ item ∈ items, terms.Allows own item := by
    intro item member isOwn
    rcases areForms isOwn with numbered | ⟨-, areForms⟩
    · exact Vocabulary.form_of_item (lists.2 item member numbered)
    · exact Vocabulary.allForms_iff.mp areForms item member
  cases value with
  | list held birth =>
      cases isSequence
      exact forms known.1 allowed
  | vector held birth =>
      cases isSequence
      exact forms known.1 allowed
  | _ => cases isSequence

/-- What a list of forms has left are forms. -/
theorem Fits.forms_of_left
    {heap : Heap} (fits : parting.Fits heap) {items left : List Value} {birth : Nat} {own : Bool}
    (allowed : terms.Allows own (.list items birth)) (isLeft : heap.left? birth = some left) :
    ∀ item ∈ left, terms.Allows own item := by
  intro item member isOwn
  rcases allowed isOwn with numbered | ⟨rfl, -⟩
  · exact Vocabulary.form_of_item ((fits.losses birth left isLeft).1.2 item member numbered)
  · rw [fits.unnumbered] at isLeft
    cases isLeft

/-! ## Scopes that face each other -/

/-- The scopes of one of the runs. -/
def scopes (parting : Parting terms) : Side → Array Scope
  | .left => parting.left
  | .right => parting.right

/-- Whether the run on a side can open a scope inside of a scope. -/
def opens (parting : Parting terms) (side : Side) (id : Nat) : Bool :=
  (Heap.empty.rescope (parting.scopes side)).canOpenInside id

/-- Whether a scope of the left and one of the right run face each other. -/
inductive Faces (parting : Parting terms) (roots : Side → Nat) : (Side → Nat) → Prop
  | roots (areShared : ∀ side, parting.shared (roots side))
      (openAlike : parting.opens .left (roots .left) = parting.opens .right (roots .right)) :
      Faces parting roots roots
  | inside (around : Side → Nat) (id table : Nat) (held : Side → Scope)
      (faces : Faces parting roots around)
      (isAround : ∀ side, (parting.scopes side)[around side]? = some (held side))
      (isInside : ∀ side, (parting.scopes side)[id]? =
        some ⟨.table table, around side :: (held side).outer⟩) :
      Faces parting roots fun _ => id

/-- Whether the runs can be at a scope on either side. -/
def Stands (parting : Parting terms) (roots : Side → Nat) (own : Bool) (place : Side → Nat) :
    Prop :=
  if own then parting.Faces roots place else ∃ id, parting.shared id ∧ place = fun _ => id

theorem Later.scopes
    {later : Parting terms} (becomes : parting.Later later) {side : Side} {id : Nat} {scope : Scope}
    (isScope : (parting.scopes side)[id]? = some scope) :
    (later.scopes side)[id]? = some scope := by
  cases side with
  | left => exact becomes.left id scope isScope
  | right => exact becomes.right id scope isScope

theorem scope_of_shared {id : Nat} (isShared : parting.shared id) :
    ∃ scope, ∀ side, (parting.scopes side)[id]? = some scope := by
  obtain ⟨scope, isLeft, isRight, -⟩ := parting.alike id isShared
  refine ⟨scope, fun side => ?_⟩
  cases side with
  | left => exact isLeft
  | right => exact isRight

theorem opens_of_scope
    {later : Parting terms} {side : Side} {id : Nat} {scope : Scope}
    (isScope : (parting.scopes side)[id]? = some scope)
    (isLater : (later.scopes side)[id]? = some scope) :
    later.opens side id = parting.opens side id := by
  unfold opens Heap.canOpenInside
  rw [Heap.rescope_scopes, Heap.rescope_scopes, isScope, isLater]

variable {roots place : Side → Nat} {own : Bool}

theorem Faces.later
    {after : Parting terms} (faces : parting.Faces roots place) (becomes : parting.Later after) :
    after.Faces roots place := by
  induction faces with
  | roots areShared openAlike =>
      have kept (side : Side) :
          after.opens side (roots side) = parting.opens side (roots side) := by
        obtain ⟨scope, isScope⟩ := scope_of_shared (areShared side)
        exact opens_of_scope (isScope side) (becomes.scopes (isScope side))
      refine .roots (fun side => becomes.shared _ (areShared side)) ?_
      rw [kept, kept]
      exact openAlike
  | inside around id table held faces isAround isInside inductionHypothesis =>
      exact .inside around id table held inductionHypothesis
        (fun side => becomes.scopes (isAround side)) fun side => becomes.scopes (isInside side)

theorem Stands.later
    {after : Parting terms} (stands : parting.Stands roots own place)
    (becomes : parting.Later after) :
    after.Stands roots own place := by
  cases own with
  | true => exact Faces.later stands becomes
  | false =>
      obtain ⟨id, isShared, isPlace⟩ := stands
      exact ⟨id, becomes.shared id isShared, isPlace⟩

/-- Each run has its scope, and both or none can open another one inside. -/
theorem Faces.held (faces : parting.Faces roots place) :
    (∃ held : Side → Scope, ∀ side, (parting.scopes side)[place side]? = some (held side)) ∧
      parting.opens .left (place .left) = parting.opens .right (place .right) := by
  cases faces with
  | roots areShared openAlike =>
      exact ⟨Classical.skolem.mp fun side => (scope_of_shared (areShared side)).imp
        fun scope isScope => isScope side, openAlike⟩
  | inside around id table held faces isAround isInside =>
      refine ⟨⟨_, isInside⟩, ?_⟩
      unfold opens Heap.canOpenInside
      rw [Heap.rescope_scopes, Heap.rescope_scopes, isInside .left, isInside .right]

end Parting

variable {parting : Parting terms} {roots place : Side → Nat} {own : Bool}

/-! ## Actions at a site -/

/-- A scope is opened where the runs are, and they go on there. -/
theorem Alongside.childScopeAt
    {vars : ValueEntries} (stands : parting.Stands roots own place)
    (known : EntriesWithin parting.bounds vars) :
    Alongside parting (fun later scope => later.Stands roots own fun _ => scope)
      fun side => Action.childScope (place side) vars := by
  cases own with
  | false =>
      obtain ⟨id, isShared, rfl⟩ := stands
      exact .weaken (.childScope isShared known) fun _ scope _ scopeShared =>
        ⟨scope, scopeShared, rfl⟩
  | true =>
      have faces : parting.Faces roots place := stands
      obtain ⟨⟨held, isHeld⟩, openAlike⟩ := faces.held
      refine .after (.newVariables known) ?_
      rintro _ ⟨table, rfl⟩ heap fits
      have leftOpens : heap.canOpenInside (place .left) = parting.opens .left (place .left) := by
        unfold Parting.opens Heap.canOpenInside
        rw [fits.scopes]
        rfl
      have rightOpens : (heap.rescope parting.right).canOpenInside (place .right) =
          parting.opens .left (place .left) := openAlike.symm
      unfold Action.scopeInside
      rw [Action.perform_get_bind, Action.perform_get_bind, leftOpens, rightOpens]
      cases parting.opens .left (place .left) with
      | false => exact .fault parting _ heap (.refl parting) fits
      | true =>
          have isLeft := (fits.leftScope _).trans (isHeld .left)
          have isRight : (heap.rescope parting.right).scopes[place .right]? =
              some (held .right) := isHeld .right
          simp only [if_true, Action.perform_change, Heap.openScope_inside isLeft,
            Heap.openScope_inside isRight]
          let inner (side : Side) : Scope := ⟨.table table, place side :: (held side).outer⟩
          have becomes := parting.later_part (inner .left) (inner .right)
          rw [Heap.rescope_scopes, parting.sameCount, fits.scopes]
          refine .value (parting.part (inner .left) (inner .right)) _ _ becomes
            (fits.later becomes) ?_
          refine .inside place _ table held (faces.later becomes)
            (fun side => becomes.scopes (isHeld side)) fun side => ?_
          cases side with
          | left => exact Array.getElem?_push_size
          | right =>
              rw [← parting.sameCount]
              exact Array.getElem?_push_size

/-- A variable is looked up in a scope, and then in the scope around it. -/
theorem Heap.lookup_inside
    {heap : Heap} {id around table : Nat} {scope : Scope}
    (isAround : heap.scopes[around]? = some scope)
    (isInside : heap.scopes[id]? = some ⟨.table table, around :: scope.outer⟩) (key : Value) :
    heap.lookup? id key =
      match ValueEntries.get? (heap.table table) key with
      | .error failure => .error failure
      | .ok (some value) => .ok (some value)
      | .ok none => heap.lookup? around key := by
  unfold Heap.lookup?
  rw [isAround, isInside]
  simp only [Heap.firstValueIn?, isInside, Heap.valueIn?]
  rcases ValueEntries.get? (heap.table table) key with failure | _ | value <;> rfl

namespace Parting

theorem Faces.sameVariables
    (faces : parting.Faces roots place) {id : Nat} (isPlace : ∀ side, place side = id) :
    parting.SameVariables id := by
  cases faces with
  | roots areShared => exact isPlace .left ▸ parting.sameVariables (areShared .left)
  | inside around id table held faces isAround isInside =>
      obtain rfl := isPlace .left
      exact ⟨_, _, _, isInside .left, isInside .right⟩

/-- The variables of a scope that the runs have opened are the same. -/
theorem Stands.sameVariables {id : Nat} (stands : parting.Stands roots own fun _ => id) :
    parting.SameVariables id := by
  cases own with
  | true => exact Faces.sameVariables stands fun _ => rfl
  | false =>
      obtain ⟨other, isShared, isPlace⟩ := stands
      rw [congrFun isPlace .left]
      exact parting.sameVariables isShared

/-- Scopes that face each other have the same variable under a name if the first two have. -/
theorem Faces.lookup
    (faces : parting.Faces roots place) {heap : Heap} (fits : parting.Fits heap) {key : Value}
    (agree : heap.lookup? (roots .left) key = heap.lookup? (roots .right) key) :
    (heap.rescope parting.right).lookup? (place .right) key =
      heap.lookup? (place .left) key := by
  induction faces with
  | roots areShared => exact (fits.lookup_rescope (areShared .right) key).trans agree.symm
  | inside around id table held faces isAround isInside inductionHypothesis =>
      have leftAround := (fits.leftScope _).trans (isAround .left)
      have leftInside := (fits.leftScope _).trans (isInside .left)
      have rightAround : (heap.rescope parting.right).scopes[around .right]? =
          some (held .right) := isAround .right
      have rightInside : (heap.rescope parting.right).scopes[id]? =
          some ⟨.table table, around .right :: (held .right).outer⟩ := isInside .right
      rw [Heap.lookup_inside leftAround leftInside, Heap.lookup_inside rightAround rightInside,
        Heap.table_rescope, inductionHypothesis]

end Parting

end CueScript
