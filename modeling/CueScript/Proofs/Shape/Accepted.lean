import CueScript.Proofs.Run.Compile
import CueScript.Proofs.Shape.Code
import CueScript.Proofs.Shape.Preorder

/-!
# Forms that pass the check

The check of an expression leaves out what is quoted.  A quotation that stands for the
bindings of a form is a name and a form for evaluation, though, so the forms that are
bound in this way have to pass the check, too.  Then the expression is code of the right
shape, and `Value.codeNumbers` lists the numbers of the lists that this rests on.
-/

namespace CueScript

open Value

namespace ShapeCheck

/-- The items of a quotation that stands for the bindings of a list. -/
def boundItems : List Value → List Value
  | .symbol head :: .list (.symbol mark :: forms) _ :: _ =>
      if SpecialForm.binds head && mark == "quote" then forms else []
  | _ => []

/-- The forms that the check leaves out although they are evaluated. -/
def leftOut (forms : List Value) : List Value :=
  (metListsAll false forms).flatMap fun met =>
    if met.quoted then [] else boundItems met.items

/-- Whether forms pass the check, and those that it leaves out would, too. -/
inductive Accepts : List Value → Prop
  | intro {forms : List Value} (passes : (run forms).fault = none)
      (further : ∀ form ∈ leftOut forms, Accepts [form]) : Accepts forms

/-- Nothing is wrong with the lists that a check went through. -/
theorem sound_of_run
    {forms : List Value} (passes : (run forms).fault = none) :
    ∀ met ∈ metListsAll false forms, met.fault? = none := by
  intro met member
  by_contra misshapen
  have contains : ∃ met ∈ metListsAll false forms, met.fault?.isSome :=
    ⟨met, member, Option.ne_none_iff_isSome.mp misshapen⟩
  obtain ⟨_, _, _, _, _, _, stopped⟩ := @through_of_misshapen 0 _ contains
  rw [run_eq_through, stopped] at passes
  cases passes

end ShapeCheck

open ShapeCheck

namespace Code

variable {kept : Nat → Prop}

/-- The elements of bindings are code if they are not quoted. -/
theorem element
    {vector : Value} {elements : List Value}
    (code : Code kept vector) (isSequence : vector.sequence? = some elements)
    (unquoted : ∀ birth, vector = .list elements birth → isQuotation elements = false) :
    ∀ element ∈ elements, Code kept element := by
  cases code with
  | atom _ isAtom =>
      rw [isAtom] at isSequence
      cases isSequence
  | vector items birth known inner =>
      cases isSequence
      exact inner
  | list items birth known sound inner =>
      cases isSequence
      exact inner (unquoted birth rfl)

theorem exists_of_bindsValues
    {items : List Value} {vector : Value}
    (binds : bindsValues items = true) (isVector : items[1]? = some vector) :
    ∃ head rest, items = .symbol head :: vector :: rest ∧ SpecialForm.binds head = true := by
  unfold bindsValues at binds
  split at binds
  · rename_i head args
    cases args with
    | nil => cases isVector
    | cons second rest =>
        cases isVector
        exact ⟨head, rest, rfl, binds⟩
  · cases binds

mutual

/-- A tree is code if nothing is wrong with the lists in it and the forms that the check
leaves out are code. -/
theorem of_metLists
    (tree : Value)
    (sound : ∀ met ∈ metLists false tree, met.fault? = none)
    (further : ∀ met ∈ metLists false tree, met.quoted = false →
      ∀ form ∈ boundItems met.items, Code (fun _ => True) form) :
    Code (fun _ => True) tree := by
  cases tree with
  | list items birth =>
      have here : faultOf items = none := sound ⟨false, items, birth⟩ List.mem_cons_self
      have boundHere := further ⟨false, items, birth⟩ List.mem_cons_self rfl
      cases quotes : isQuotation items with
      | true =>
          refine .list items birth trivial here ?_ ?_
          · intro unquoted
            rw [quotes] at unquoted
            cases unquoted
          · intro binds
            rw [isQuotation_of_bindsValues binds] at quotes
            cases quotes
      | false =>
          simp only [metLists, quotes, Bool.or_self] at sound further
          have inner := of_metListsAll items
            (fun met member => sound met (List.mem_cons_of_mem _ member))
            (fun met member => further met (List.mem_cons_of_mem _ member))
          refine .list items birth trivial here (fun _ => inner) ?_
          intro binds vector elements isVector isSequence
          have vectorCode := inner vector (List.mem_of_getElem? isVector)
          cases elementsQuote : isQuotation elements with
          | false => exact element vectorCode isSequence fun _ _ => elementsQuote
          | true =>
              by_cases isList : ∃ number, vector = .list elements number
              · -- The check takes these bindings for a quotation.
                obtain ⟨number, rfl⟩ := isList
                obtain ⟨head, rest, rfl, isBinding⟩ := exists_of_bindsValues binds isVector
                unfold isQuotation at elementsQuote
                split at elementsQuote
                · rename_i mark forms
                  intro each member
                  rcases List.mem_cons.mp member with rfl | isForm
                  · exact .atom _ rfl
                  · refine boundHere each ?_
                    simp only [boundItems, isBinding, elementsQuote, Bool.and_self, if_pos]
                    exact isForm
                · cases elementsQuote
              · refine element vectorCode isSequence fun number isList' => ?_
                exact absurd ⟨number, isList'⟩ isList
  | vector items birth =>
      exact .vector items birth trivial (of_metListsAll items sound further)
  | _ => exact .atom _ rfl

theorem of_metListsAll
    (trees : List Value)
    (sound : ∀ met ∈ metListsAll false trees, met.fault? = none)
    (further : ∀ met ∈ metListsAll false trees, met.quoted = false →
      ∀ form ∈ boundItems met.items, Code (fun _ => True) form) :
    ∀ tree ∈ trees, Code (fun _ => True) tree := by
  cases trees with
  | nil =>
      intro tree member
      cases member
  | cons first rest =>
      have firstCode := of_metLists first
        (fun met member => sound met (List.mem_append_left _ member))
        (fun met member => further met (List.mem_append_left _ member))
      have restCode := of_metListsAll rest
        (fun met member => sound met (List.mem_append_right _ member))
        (fun met member => further met (List.mem_append_right _ member))
      intro tree member
      rcases List.mem_cons.mp member with rfl | isLater
      · exact firstCode
      · exact restCode tree isLater

end

/-- Accepted forms are code. -/
theorem of_accepts
    {forms : List Value} (accepts : Accepts forms) :
    ∀ form ∈ forms, Code (fun _ => True) form := by
  induction accepts with
  | @intro forms passes further inductionHypothesis =>
      refine of_metListsAll forms (sound_of_run passes) ?_
      intro met member unquoted form isBound
      refine inductionHypothesis form ?_ form List.mem_cons_self
      refine List.mem_flatMap.mpr ⟨met, member, ?_⟩
      rw [if_neg (ne_true_of_eq_false unquoted)]
      exact isBound

end Code

/-! ## The lists of code -/

namespace Value

mutual

/-- The numbers of the lists that evaluating a form takes for code.  What is quoted is no
code unless it stands for bindings. -/
def codeNumbers (bindings : Bool) : Value → List Nat
  | .list items birth =>
      birth ::
        if isQuotation items && !bindings then
          []
        else
          codeNumbersAll false (bindsValues items) items
  | .vector items birth => birth :: codeNumbersAll false false items
  | _ => []

/-- The same for forms of which the first or the second may stand for bindings. -/
def codeNumbersAll (first second : Bool) : List Value → List Nat
  | [] => []
  | form :: rest => codeNumbers first form ++ codeNumbersAll second false rest

end

theorem codeNumbers_of_false
    {value : Value} {number : Nat} (bindings : Bool)
    (member : number ∈ codeNumbers false value) :
    number ∈ codeNumbers bindings value := by
  cases value with
  | list items birth =>
      rw [codeNumbers] at member ⊢
      rcases List.mem_cons.mp member with rfl | isInner
      · exact List.mem_cons_self
      · refine List.mem_cons_of_mem _ ?_
        split at isInner
        · cases isInner
        · rename_i unquoted
          rw [if_neg]
          · exact isInner
          · intro quoted
            simp only [Bool.not_false, Bool.and_true] at unquoted
            exact unquoted (Bool.and_eq_true_iff.mp quoted).1
  | _ => exact member

theorem mem_codeNumbersAll
    {items : List Value} {item : Value} {number : Nat} (first second : Bool)
    (isItem : item ∈ items) (member : number ∈ codeNumbers false item) :
    number ∈ codeNumbersAll first second items := by
  induction items generalizing first second with
  | nil => cases isItem
  | cons head rest inductionHypothesis =>
      rw [codeNumbersAll]
      rcases List.mem_cons.mp isItem with rfl | isLater
      · exact List.mem_append_left _ (codeNumbers_of_false first member)
      · exact List.mem_append_right _ (inductionHypothesis second false isLater)

theorem mem_codeNumbersAll_second
    {items : List Value} {item : Value} {number : Nat} (first second : Bool)
    (isItem : items[1]? = some item) (member : number ∈ codeNumbers second item) :
    number ∈ codeNumbersAll first second items := by
  rcases items with _ | ⟨head, _ | ⟨next, rest⟩⟩
  · cases isItem
  · cases isItem
  · cases isItem
    rw [codeNumbersAll, codeNumbersAll]
    exact List.mem_append_right _ (List.mem_append_left _ member)

theorem mem_codeNumbers_element
    {vector element : Value} {elements : List Value} {number : Nat}
    (isSequence : vector.sequence? = some elements) (isElement : element ∈ elements)
    (member : number ∈ codeNumbers false element) :
    number ∈ codeNumbers true vector := by
  cases vector with
  | list items birth =>
      cases isSequence
      rw [codeNumbers, Bool.not_true, Bool.and_false, if_neg Bool.false_ne_true]
      exact List.mem_cons_of_mem _ (mem_codeNumbersAll _ _ isElement member)
  | vector items birth =>
      cases isSequence
      rw [codeNumbers]
      exact List.mem_cons_of_mem _ (mem_codeNumbersAll _ _ isElement member)
  | _ => cases isSequence

mutual

/-- The lists of code within bounds have numbers within the bounds. -/
theorem births_of_codeNumbers
    {bounds : Bounds} (bindings : Bool) (value : Value) (within : Within bounds value) :
    ∀ number ∈ codeNumbers bindings value, bounds.births number := by
  cases value with
  | list items birth =>
      have inner := births_of_codeNumbersAll false (bindsValues items) items within.2
      intro number member
      rw [codeNumbers] at member
      rcases List.mem_cons.mp member with rfl | isInner
      · exact within.1.1
      · split at isInner
        · cases isInner
        · exact inner number isInner
  | vector items birth =>
      have inner := births_of_codeNumbersAll false false items within.2
      intro number member
      rw [codeNumbers] at member
      rcases List.mem_cons.mp member with rfl | isInner
      · exact within.1.1
      · exact inner number isInner
  | _ =>
      intro number member
      cases member

theorem births_of_codeNumbersAll
    {bounds : Bounds} (first second : Bool) (items : List Value)
    (within : AllWithin bounds items) :
    ∀ number ∈ codeNumbersAll first second items, bounds.births number := by
  cases items with
  | nil =>
      intro number member
      cases member
  | cons item rest =>
      have here := births_of_codeNumbers first item within.1
      have later := births_of_codeNumbersAll second false rest within.2
      intro number member
      rw [codeNumbersAll] at member
      rcases List.mem_append.mp member with isHere | isLater
      · exact here number isHere
      · exact later number isLater

end

end Value

/-- Code has the numbers that it is listed with. -/
theorem Code.of_codeNumbers
    {kept : Nat → Prop} {value : Value}
    (code : Code (fun _ => True) value)
    (keeps : ∀ number ∈ codeNumbers false value, kept number) :
    Code kept value := by
  induction code with
  | atom value isAtom => exact .atom value isAtom
  | vector items birth _ _ inductionHypothesis =>
      rw [codeNumbers] at keeps
      refine .vector items birth (keeps birth List.mem_cons_self) fun item member => ?_
      refine inductionHypothesis item member fun number isNumber => ?_
      exact keeps number (List.mem_cons_of_mem _ (mem_codeNumbersAll _ _ member isNumber))
  | list items birth _ sound _ _ innerHypothesis boundHypothesis =>
      rw [codeNumbers] at keeps
      refine .list items birth (keeps birth List.mem_cons_self) sound ?_ ?_
      · intro unquoted item member
        rw [unquoted, Bool.false_and, if_neg Bool.false_ne_true] at keeps
        refine innerHypothesis unquoted item member fun number isNumber => ?_
        exact keeps number (List.mem_cons_of_mem _ (mem_codeNumbersAll _ _ member isNumber))
      · intro binds vector elements isVector isSequence each member
        rw [isQuotation_of_bindsValues binds, Bool.false_and, if_neg Bool.false_ne_true,
          binds] at keeps
        refine boundHypothesis binds vector elements isVector isSequence each member ?_
        intro number isNumber
        have inBindings := mem_codeNumbers_element isSequence member isNumber
        exact keeps number
          (List.mem_cons_of_mem _ (mem_codeNumbersAll_second _ _ isVector inBindings))

/-! ## The function of an expression -/

/-- Accepted forms make a function of the right shape. -/
theorem Code.synthesize
    {forms : List Value} (accepts : Accepts forms) :
    Code (fun _ => True) (Expression.synthesize forms []) := by
  have bodyCode : Code (fun _ => True) (.list (.symbol "do" :: forms) 0) := by
    refine .list _ 0 trivial rfl (fun _ item member => ?_) fun binds => ?_
    · rcases List.mem_cons.mp member with rfl | isForm
      · exact .atom _ rfl
      · exact of_accepts accepts item isForm
    · cases binds
  have parametersCode :
      Code (fun _ => True) (.vector (Expression.parameters.map .symbol) 0) := by
    refine .vector _ 0 trivial fun item member => ?_
    obtain ⟨name, -, rfl⟩ := List.mem_map.mp member
    exact .atom _ rfl
  refine .list _ 0 trivial rfl (fun _ item member => ?_) fun binds => ?_
  · simp only [List.mem_cons, List.not_mem_nil, or_false] at member
    rcases member with rfl | rfl | rfl
    · exact .atom _ rfl
    · exact parametersCode
    · exact bodyCode
  · cases binds

end CueScript
