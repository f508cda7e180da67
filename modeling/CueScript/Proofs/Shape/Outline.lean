import CueScript.Proofs.Shape.Parts
import CueScript.SpecialForm.Check

/-!
# What the shape of a special form goes by

Whether a list is the special form that its head announces depends on its length, on
which of its items are symbols and on the symbols in those of them that are sequences.
This is the outline of the list: another list with the same outline has the right shape
just as well.
-/

namespace CueScript

namespace Value

/-- The name of a symbol. -/
def nameOf? : Value → Option String
  | .symbol name => some name
  | _ => none

theorem nameOf?_eq_some_iff {value : Value} {name : String} :
    value.nameOf? = some name ↔ value = .symbol name := by
  cases value <;> simp [nameOf?]

/-- What the shape of a special form goes by in one of its items. -/
structure Outline where
  /-- The name of a symbol. -/
  name : Option String
  /-- The names of the symbols in a sequence. -/
  names : Option (List (Option String))

/-- The outline of an item. -/
def outline (value : Value) : Outline :=
  ⟨value.nameOf?, value.sequence?.map (List.map nameOf?)⟩

theorem nameOf?_of_outline
    {value other : Value} (alike : value.outline = other.outline) :
    value.nameOf? = other.nameOf? :=
  congrArg Outline.name alike

theorem sequence?_of_outline
    {value other : Value} {items : List Value}
    (alike : value.outline = other.outline) (isSequence : value.sequence? = some items) :
    ∃ others, other.sequence? = some others ∧ items.map nameOf? = others.map nameOf? := by
  have names : value.sequence?.map (List.map nameOf?) = other.sequence?.map (List.map nameOf?) :=
    congrArg Outline.names alike
  rw [isSequence, Option.map_some, eq_comm, Option.map_eq_some_iff] at names
  obtain ⟨others, isOther, same⟩ := names
  exact ⟨others, isOther, same.symm⟩

end Value

open Value

namespace SpecialForm

variable {form others items : List Value}

/-! ## Bindings and parameters -/

theorem bindingPairs_alike
    {pairs : List (String × Value)}
    (alike : items.map nameOf? = others.map nameOf?)
    (isPairs : bindingPairs items = .ok pairs) :
    ∃ otherPairs, bindingPairs others = .ok otherPairs ∧ otherPairs.length = pairs.length := by
  fun_induction bindingPairs items generalizing others pairs with
  | case1 name part rest inductionHypothesis =>
      rcases others with _ | ⟨otherName, _ | ⟨otherPart, otherRest⟩⟩
      · simp at alike
      · simp at alike
      · simp only [List.map_cons, List.cons.injEq] at alike
        obtain ⟨sameName, -, restAlike⟩ := alike
        cases nameOf?_eq_some_iff.mp sameName.symm
        cases later : bindingPairs rest with
        | error fault =>
            rw [later] at isPairs
            cases isPairs
        | ok restPairs =>
            rw [later] at isPairs
            cases isPairs
            obtain ⟨otherPairs, isOther, sameLength⟩ := inductionHypothesis restAlike later
            refine ⟨(name, otherPart) :: otherPairs, ?_, ?_⟩
            · rw [bindingPairs, isOther]
              rfl
            · rw [List.length_cons, List.length_cons, sameLength]
  | case2 => cases isPairs
  | case3 items notSymbol notOther =>
      cases isPairs
      refine ⟨[], ?_, rfl⟩
      rcases items with _ | ⟨item, _ | ⟨next, rest⟩⟩
      · cases others with
        | nil => rfl
        | cons => simp at alike
      · rcases others with _ | ⟨other, _ | ⟨otherNext, otherRest⟩⟩
        · simp at alike
        · rw [bindingPairs]
          · rfl
          · intro _ _ _ same
            cases same
          · intro _ _ _ same
            cases same
        · simp at alike
      · exact absurd rfl (notOther item next rest)

theorem parameters_alike
    {found : List String × Option String}
    (alike : items.map nameOf? = others.map nameOf?)
    (isFound : parameters items = .ok found) :
    parameters others = .ok found := by
  fun_induction parameters items generalizing others found with
  | case1 =>
      cases others with
      | nil => exact isFound
      | cons => simp at alike
  | case2 rest =>
      rcases others with _ | ⟨other, _ | ⟨otherRest, _ | ⟨further, more⟩⟩⟩
      · simp at alike
      · simp at alike
      · simp only [List.map_cons, List.cons.injEq] at alike
        cases nameOf?_eq_some_iff.mp alike.1.symm
        cases nameOf?_eq_some_iff.mp alike.2.1.symm
        exact isFound
      · simp at alike
  | case3 => cases isFound
  | case4 name rest ordinary inductionHypothesis =>
      cases others with
      | nil => simp at alike
      | cons other otherRest =>
          simp only [List.map_cons, List.cons.injEq] at alike
          cases nameOf?_eq_some_iff.mp alike.1.symm
          cases later : parameters rest with
          | error fault =>
              rw [later] at isFound
              cases isFound
          | ok names =>
              rw [later] at isFound
              simp only [parameters, if_neg ordinary, inductionHypothesis alike.2 later]
              exact isFound
  | case5 => cases isFound

theorem bindings_alike
    {pairs : List (String × Value)}
    (alike : form.map outline = others.map outline)
    (isPairs : bindings form = .ok pairs) :
    ∃ otherPairs, bindings others = .ok otherPairs ∧ otherPairs.length = pairs.length := by
  unfold bindings at isPairs
  split at isPairs
  · rename_i head vector rest
    rcases others with _ | ⟨otherHead, _ | ⟨otherVector, otherRest⟩⟩
    · simp at alike
    · simp at alike
    · simp only [List.map_cons, List.cons.injEq] at alike
      split at isPairs
      · rename_i items isSequence
        obtain ⟨otherItems, isOther, sameNames⟩ := sequence?_of_outline alike.2.1 isSequence
        have sameLength : items.length = otherItems.length := by
          simpa using congrArg List.length sameNames
        split at isPairs
        · rename_i isEven
          rw [sameLength] at isEven
          simp only [bindings, isOther, if_pos isEven]
          exact bindingPairs_alike sameNames isPairs
        · cases isPairs
      · cases isPairs
  · cases isPairs

/-! ## Forms by head -/

/-- A list is the special form that its head announces. -/
def Fits (result : Except ShapeFault SpecialForm) : Prop := ∃ parts, result = .ok parts

theorem asQuote_fits_iff : Fits (asQuote form) ↔ form.length = 2 := by
  rcases form with _ | ⟨first, _ | ⟨second, _ | ⟨third, rest⟩⟩⟩ <;>
    simp [Fits, asQuote, pure, Except.pure, throw, throwThe, MonadExceptOf.throw]

theorem asIf_fits_iff : Fits (asIf form) ↔ form.length = 3 ∨ form.length = 4 := by
  rcases form with _ | ⟨first, _ | ⟨second, _ | ⟨third, _ | ⟨fourth, _ | ⟨fifth, rest⟩⟩⟩⟩⟩ <;>
    simp [Fits, asIf, pure, Except.pure, throw, throwThe, MonadExceptOf.throw]

theorem asGuarded_fits_iff {name : String} {make : Value → List Value → SpecialForm} :
    Fits (asGuarded name make form) ↔ 2 ≤ form.length := by
  rcases form with _ | ⟨first, _ | ⟨second, rest⟩⟩ <;>
    simp [Fits, asGuarded, pure, Except.pure, throw, throwThe, MonadExceptOf.throw]

theorem asCond_fits_iff : Fits (asCond form) ↔ form.tail.length % 2 = 0 := by
  unfold asCond
  split
  · rename_i isEven
    exact ⟨fun _ => isEven, fun _ => ⟨_, rfl⟩⟩
  · rename_i isOdd
    refine ⟨?_, fun isEven => absurd isEven isOdd⟩
    rintro ⟨parts, isOk⟩
    cases isOk

theorem asLet_fits
    (alike : form.map outline = others.map outline) (fits : Fits (asLet form)) :
    Fits (asLet others) := by
  obtain ⟨parts, isParts⟩ := fits
  unfold asLet at isParts
  cases isPairs : bindings form with
  | error fault =>
      rw [isPairs] at isParts
      cases isParts
  | ok pairs =>
      obtain ⟨otherPairs, isOther, -⟩ := bindings_alike alike isPairs
      unfold asLet
      rw [isOther]
      exact ⟨_, rfl⟩

theorem asWhenLet_fits
    (alike : form.map outline = others.map outline) (fits : Fits (asWhenLet form)) :
    Fits (asWhenLet others) := by
  obtain ⟨parts, isParts⟩ := fits
  unfold asWhenLet at isParts
  cases isPairs : bindings form with
  | error fault =>
      rw [isPairs] at isParts
      cases isParts
  | ok pairs =>
      obtain ⟨otherPairs, isOther, sameLength⟩ := bindings_alike alike isPairs
      rw [isPairs] at isParts
      simp only [bind, Except.bind] at isParts
      split at isParts
      · obtain ⟨pair, rfl⟩ := List.length_eq_one_iff.mp sameLength
        unfold asWhenLet
        rw [isOther]
        exact ⟨_, rfl⟩
      · cases isParts

theorem asIfLet_fits
    (alike : form.map outline = others.map outline) (fits : Fits (asIfLet form)) :
    Fits (asIfLet others) := by
  obtain ⟨parts, isParts⟩ := fits
  have sameLength : form.length = others.length := by
    simpa using congrArg List.length alike
  unfold asIfLet at isParts
  cases isPairs : bindings form with
  | error fault =>
      rw [isPairs] at isParts
      cases isParts
  | ok pairs =>
      obtain ⟨otherPairs, isOther, samePairs⟩ := bindings_alike alike isPairs
      rw [isPairs] at isParts
      simp only [bind, Except.bind] at isParts
      split at isParts
      · obtain ⟨pair, rfl⟩ := List.length_eq_one_iff.mp samePairs
        rcases others with _ | ⟨head, _ | ⟨vector, _ | ⟨yes, _ | ⟨further, rest⟩⟩⟩⟩ <;>
          simp only [List.length_cons, List.length_nil] at sameLength <;> try omega
        unfold asIfLet
        rw [isOther]
        exact ⟨_, rfl⟩
      · obtain ⟨pair, rfl⟩ := List.length_eq_one_iff.mp samePairs
        rcases others with _ | ⟨head, _ | ⟨vector, _ | ⟨yes, _ | ⟨no, _ | ⟨further, rest⟩⟩⟩⟩⟩ <;>
          simp only [List.length_cons, List.length_nil] at sameLength <;> try omega
        unfold asIfLet
        rw [isOther]
        exact ⟨_, rfl⟩
      · cases isParts

theorem functionOf_fits
    {name : String}
    (alike : items.map outline = others.map outline) (fits : Fits (functionOf name items)) :
    ∀ other, Fits (functionOf other others) := by
  obtain ⟨parts, isParts⟩ := fits
  intro other
  unfold functionOf at isParts
  split at isParts
  · cases isParts
  · rename_i vector body
    cases others with
    | nil => simp at alike
    | cons otherVector otherBody =>
        simp only [List.map_cons, List.cons.injEq] at alike
        split at isParts
        · cases isParts
        · rename_i names isSequence
          obtain ⟨otherNames, isOther, sameNames⟩ := sequence?_of_outline alike.1 isSequence
          cases isFound : parameters names with
          | error fault =>
              rw [isFound] at isParts
              cases isParts
          | ok found =>
              unfold functionOf
              simp only [isOther]
              rw [parameters_alike sameNames isFound]
              exact ⟨_, rfl⟩

theorem asFunction_fits
    (alike : form.map outline = others.map outline) (fits : Fits (asFunction form)) :
    Fits (asFunction others) := by
  have tailAlike : form.tail.map outline = others.tail.map outline := by
    rw [List.map_tail, List.map_tail, alike]
  unfold asFunction at fits ⊢
  generalize form.tail = items at fits tailAlike
  generalize others.tail = otherItems at tailAlike
  cases items with
  | nil =>
      obtain ⟨parts, isParts⟩ := fits
      cases isParts
  | cons first rest =>
      cases otherItems with
      | nil => simp at tailAlike
      | cons otherFirst otherRest =>
          have bothAlike := tailAlike
          simp only [List.map_cons, List.cons.injEq] at tailAlike
          have sameName := nameOf?_of_outline tailAlike.1
          cases isName : first.nameOf? with
          | some name =>
              rw [isName] at sameName
              cases nameOf?_eq_some_iff.mp isName
              cases nameOf?_eq_some_iff.mp sameName.symm
              exact functionOf_fits tailAlike.2 fits name
          | none =>
              rw [isName] at sameName
              split at fits
              · rename_i name parts same
                cases same
                cases isName
              · split
                · rename_i name parts same
                  cases same
                  cases sameName
                · exact functionOf_fits bothAlike fits unnamed

/-- A list with the outline of a special form is one, too. -/
theorem ofForm_fits
    {head : String}
    (alike : head ≠ "quote" → form.map outline = others.map outline)
    (sameLength : form.length = others.length)
    (fits : ∀ result, ofForm? head form = some result → Fits result) :
    ∀ result, ofForm? head others = some result → Fits result := by
  unfold ofForm? at fits ⊢
  split <;> simp only [Option.some.injEq, forall_eq', reduceCtorEq, false_implies,
    implies_true] at fits ⊢
  · rw [asQuote_fits_iff] at fits ⊢
    rwa [← sameLength]
  · rw [asIf_fits_iff] at fits ⊢
    rwa [← sameLength]
  · rw [asGuarded_fits_iff] at fits ⊢
    rwa [← sameLength]
  · rw [asGuarded_fits_iff] at fits ⊢
    rwa [← sameLength]
  · exact ⟨_, rfl⟩
  · exact ⟨_, rfl⟩
  · exact ⟨_, rfl⟩
  · exact asLet_fits (alike (by decide)) fits
  · exact asWhenLet_fits (alike (by decide)) fits
  · exact asIfLet_fits (alike (by decide)) fits
  · rw [asCond_fits_iff] at fits ⊢
    rwa [List.length_tail, ← sameLength, ← List.length_tail]
  · exact asFunction_fits (alike (by decide)) fits

end SpecialForm

namespace ShapeCheck

theorem faultOf_eq_none_iff {head : String} {args : List Value} :
    faultOf (.symbol head :: args) = none ↔
      ∀ result, SpecialForm.ofForm? head (.symbol head :: args) = some result →
        SpecialForm.Fits result := by
  simp only [faultOf]
  cases SpecialForm.ofForm? head (.symbol head :: args) with
  | none => simp
  | some result =>
      cases result with
      | error fault => simp [SpecialForm.Fits]
      | ok parts => simp [SpecialForm.Fits]

/-- Nothing is wrong with a list that has the outline of one with which nothing is
wrong. -/
theorem faultOf_of_outline
    {form others : List Value}
    (heads : form.head?.bind nameOf? = others.head?.bind nameOf?)
    (sameLength : form.length = others.length)
    (alike : isQuotation form = false → form.map outline = others.map outline)
    (sound : faultOf form = none) :
    faultOf others = none := by
  cases others with
  | nil => rfl
  | cons otherHead otherArgs =>
      cases isName : otherHead.nameOf? with
      | none =>
          cases otherHead with
          | symbol name => cases isName
          | _ => rfl
      | some name =>
          cases nameOf?_eq_some_iff.mp isName
          cases form with
          | nil => simp at sameLength
          | cons head args =>
              simp only [List.head?_cons, Option.bind_some, isName] at heads
              cases nameOf?_eq_some_iff.mp heads
              rw [faultOf_eq_none_iff] at sound ⊢
              refine SpecialForm.ofForm_fits (fun notQuote => alike ?_) sameLength sound
              exact beq_false_of_ne notQuote

end ShapeCheck

end CueScript
