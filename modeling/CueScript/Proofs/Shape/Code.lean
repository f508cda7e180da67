import CueScript.Proofs.Run.Current
import CueScript.Proofs.Run.Evaluation
import CueScript.Proofs.Shape.Outline
import CueScript.Value.Birth
import Mathlib.Data.List.Forall2

/-!
# Code of the right shape

`Code` describes forms whose evaluation meets no special form of the wrong shape.  It
follows evaluation, not the check of an expression: the two differ where a quotation
stands for bindings, since its form is evaluated and not checked.

A form stays of the right shape while its lists keep their items, whatever numbers they
have.
-/

namespace CueScript

open Value

/-- Whether a list binds the values of forms. -/
def bindsValues : List Value → Bool
  | .symbol head :: _ => SpecialForm.binds head
  | _ => false

/-- Forms that only contain special forms of the right shape where they are evaluated.
Their lists have some numbers. -/
inductive Code (kept : Nat → Prop) : Value → Prop
  | atom (value : Value) (isAtom : value.sequence? = none) : Code kept value
  | vector (items : List Value) (birth : Nat) (known : kept birth)
      (inner : ∀ item ∈ items, Code kept item) : Code kept (.vector items birth)
  | list (items : List Value) (birth : Nat) (known : kept birth)
      (sound : ShapeCheck.faultOf items = none)
      (inner : ShapeCheck.isQuotation items = false → ∀ item ∈ items, Code kept item)
      (bound : bindsValues items = true → ∀ vector elements, items[1]? = some vector →
        vector.sequence? = some elements → ∀ element ∈ elements, Code kept element) :
      Code kept (.list items birth)

namespace Code

variable {kept : Nat → Prop} {items args : List Value} {birth : Nat} {head : String}

theorem isQuotation_eq (name : String) (args : List Value) :
    ShapeCheck.isQuotation (.symbol name :: args) = (name == "quote") := rfl

theorem isQuotation_of_bindsValues
    (binds : bindsValues items = true) : ShapeCheck.isQuotation items = false := by
  unfold bindsValues at binds
  split at binds
  · rename_i name args
    rw [isQuotation_eq, beq_eq_false_iff_ne]
    rintro rfl
    cases binds
  · cases binds

theorem known (code : Code kept (.list items birth)) : kept birth := by
  cases code with
  | atom _ isAtom => cases isAtom
  | list _ _ known => exact known

theorem sound (code : Code kept (.list items birth)) : ShapeCheck.faultOf items = none := by
  cases code with
  | atom _ isAtom => cases isAtom
  | list _ _ _ sound => exact sound

theorem item
    (code : Code kept (.list items birth)) (unquoted : ShapeCheck.isQuotation items = false) :
    ∀ item ∈ items, Code kept item := by
  cases code with
  | atom _ isAtom => cases isAtom
  | list _ _ _ _ inner => exact inner unquoted

/-- The parts of code are code. -/
theorem parts
    {parts : SpecialForm}
    (code : Code kept (.list (.symbol head :: args) birth))
    (isParts : SpecialForm.ofForm? head (.symbol head :: args) = some (.ok parts)) :
    parts.All (fun _ => True) (Code kept) := by
  refine SpecialForm.ofForm_all (fun _ _ _ => trivial) ?_ ?_ isParts
  · intro binds
    cases code with
    | atom _ isAtom => cases isAtom
    | list _ _ _ _ _ bound => exact bound binds
  · intro notQuote
    exact code.item (beq_false_of_ne notQuote)

theorem not_fault
    {fault : ShapeFault}
    (code : Code kept (.list (.symbol head :: args) birth)) :
    SpecialForm.ofForm? head (.symbol head :: args) ≠ some (.error fault) := by
  intro isFault
  obtain ⟨parts, isOk⟩ := ShapeCheck.faultOf_eq_none_iff.mp code.sound _ isFault
  cases isOk

/-- What an abbreviation with code for arguments stands for is code. -/
theorem expansion
    {expansion : Value}
    (unnumbered : kept 0) (argsCode : ∀ arg ∈ args, Code kept arg)
    (isExpansion : expand? head args = some expansion) :
    Code kept expansion := by
  obtain ⟨symbols, isFound, rfl⟩ := Option.map_eq_some_iff.mp isExpansion
  have itemsCode : ∀ item ∈ symbols.map Value.symbol ++ args, Code kept item := by
    intro item member
    rcases List.mem_append.mp member with isSymbol | isArg
    · obtain ⟨name, -, rfl⟩ := List.mem_map.mp isSymbol
      exact .atom _ rfl
    · exact argsCode item isArg
  have plain : ShapeCheck.faultOf (symbols.map Value.symbol ++ args) = none ∧
      bindsValues (symbols.map Value.symbol ++ args) = false := by
    simp only [abbreviations, List.lookup_cons, List.lookup_nil] at isFound
    split at isFound
    · cases isFound
      exact ⟨rfl, rfl⟩
    · split at isFound
      · cases isFound
        exact ⟨rfl, rfl⟩
      · cases isFound
  refine .list _ 0 unnumbered plain.1 (fun _ => itemsCode) fun binds => ?_
  rw [plain.2] at binds
  cases binds

end Code

/-! ## Other lists with the same items -/

/-- A way of making values from values that leaves symbols and the number of items as they
are, at least for lists with some numbers. -/
structure Relabels (kept renewed : Nat → Prop) (step : Value → Value → Prop) : Prop where
  name : ∀ {value other : Value}, step value other → value.nameOf? = other.nameOf?
  atom : ∀ {value other : Value}, step value other → value.sequence? = none →
    other.sequence? = none
  vector : ∀ {items : List Value} {birth : Nat} {other : Value}, kept birth →
    step (.vector items birth) other →
      ∃ others number, other = .vector others number ∧ renewed number ∧
        List.Forall₂ step items others
  list : ∀ {items : List Value} {birth : Nat} {other : Value}, kept birth →
    step (.list items birth) other →
      ∃ others number, other = .list others number ∧ renewed number ∧
        List.Forall₂ step items others

namespace Relabels

variable {kept renewed : Nat → Prop} {step : Value → Value → Prop}

theorem getElem?_of_forall₂
    {items others : List Value} {index : Nat} {other : Value}
    (steps : List.Forall₂ step items others) (isItem : others[index]? = some other) :
    ∃ item, items[index]? = some item ∧ step item other := by
  induction steps generalizing index with
  | nil => cases isItem
  | cons first _ inductionHypothesis =>
      cases index with
      | zero =>
          cases isItem
          exact ⟨_, rfl, first⟩
      | succ index => exact inductionHypothesis isItem

theorem mem_of_forall₂
    {items others : List Value} {other : Value}
    (steps : List.Forall₂ step items others) (member : other ∈ others) :
    ∃ item ∈ items, step item other := by
  obtain ⟨index, isItem⟩ := List.mem_iff_getElem?.mp member
  obtain ⟨item, atIndex, made⟩ := getElem?_of_forall₂ steps isItem
  exact ⟨item, List.mem_of_getElem? atIndex, made⟩

theorem map_nameOf
    (relabels : Relabels kept renewed step) {items others : List Value}
    (steps : List.Forall₂ step items others) :
    items.map nameOf? = others.map nameOf? := by
  induction steps with
  | nil => rfl
  | cons first _ inductionHypothesis =>
      rw [List.map_cons, List.map_cons, relabels.name first, inductionHypothesis]

theorem head_name
    (relabels : Relabels kept renewed step) {items others : List Value}
    (steps : List.Forall₂ step items others) :
    items.head?.bind nameOf? = others.head?.bind nameOf? := by
  cases steps with
  | nil => rfl
  | cons first _ => exact relabels.name first

/-- Code and what is made of it have the same outline. -/
theorem outline
    (relabels : Relabels kept renewed step) {value other : Value}
    (code : Code kept value) (made : step value other) :
    value.outline = other.outline := by
  have name := relabels.name made
  cases code with
  | atom _ isAtom =>
      have otherAtom := relabels.atom made isAtom
      simp only [Value.outline, name, isAtom, otherAtom]
  | vector items birth known =>
      obtain ⟨others, number, rfl, -, steps⟩ := relabels.vector known made
      simp only [Value.outline, name, Value.sequence?, Option.map_some, relabels.map_nameOf steps]
  | list items birth known =>
      obtain ⟨others, number, rfl, -, steps⟩ := relabels.list known made
      simp only [Value.outline, name, Value.sequence?, Option.map_some, relabels.map_nameOf steps]

theorem map_outline
    (relabels : Relabels kept renewed step) {items others : List Value}
    (codes : ∀ item ∈ items, Code kept item) (steps : List.Forall₂ step items others) :
    items.map Value.outline = others.map Value.outline := by
  induction steps with
  | nil => rfl
  | cons first _ inductionHypothesis =>
      rw [List.map_cons, List.map_cons, relabels.outline (codes _ List.mem_cons_self) first,
        inductionHypothesis fun item member => codes item (List.mem_cons_of_mem _ member)]

theorem isQuotation_eq_of_head
    {items others : List Value}
    (heads : items.head?.bind nameOf? = others.head?.bind nameOf?) :
    ShapeCheck.isQuotation items = ShapeCheck.isQuotation others ∧
      bindsValues items = bindsValues others := by
  have read (items : List Value) :
      ShapeCheck.isQuotation items = (items.head?.bind nameOf? == some "quote") ∧
        bindsValues items = ((items.head?.bind nameOf?).any SpecialForm.binds) := by
    cases items with
    | nil => exact ⟨rfl, rfl⟩
    | cons head args =>
        cases head with
        | symbol name => exact ⟨rfl, rfl⟩
        | _ => exact ⟨rfl, rfl⟩
  rw [(read items).1, (read items).2, (read others).1, (read others).2, heads]
  exact ⟨rfl, rfl⟩

/-- The items of a sequence that is code come from items. -/
theorem element
    (relabels : Relabels kept renewed step) {value other : Value} {others : List Value}
    {element : Value}
    (code : Code kept value) (made : step value other)
    (isSequence : other.sequence? = some others) (member : element ∈ others) :
    ∃ items, value.sequence? = some items ∧ ∃ item ∈ items, step item element := by
  cases code with
  | atom _ isAtom =>
      rw [relabels.atom made isAtom] at isSequence
      cases isSequence
  | vector items birth known =>
      obtain ⟨found, number, rfl, -, steps⟩ := relabels.vector known made
      cases isSequence
      exact ⟨items, rfl, mem_of_forall₂ steps member⟩
  | list items birth known =>
      obtain ⟨found, number, rfl, -, steps⟩ := relabels.list known made
      cases isSequence
      exact ⟨items, rfl, mem_of_forall₂ steps member⟩

/-- What is made of code is code. -/
theorem code
    (relabels : Relabels kept renewed step) {value other : Value}
    (code : Code kept value) (made : step value other) :
    Code renewed other := by
  induction code generalizing other with
  | atom value isAtom => exact .atom other (relabels.atom made isAtom)
  | vector items birth known _ inductionHypothesis =>
      obtain ⟨others, number, rfl, isRenewed, steps⟩ := relabels.vector known made
      refine .vector others number isRenewed fun item member => ?_
      obtain ⟨original, isItem, makes⟩ := mem_of_forall₂ steps member
      exact inductionHypothesis original isItem makes
  | list items birth known sound inner bound innerHypothesis boundHypothesis =>
      obtain ⟨others, number, rfl, isRenewed, steps⟩ := relabels.list known made
      have heads := relabels.head_name steps
      obtain ⟨sameQuotation, sameBinds⟩ := isQuotation_eq_of_head heads
      refine .list others number isRenewed ?_ ?_ ?_
      · exact ShapeCheck.faultOf_of_outline heads steps.length_eq
          (fun unquoted => relabels.map_outline (inner unquoted) steps) sound
      · intro unquoted item member
        obtain ⟨original, isItem, makes⟩ := mem_of_forall₂ steps member
        exact innerHypothesis (sameQuotation.trans unquoted) original isItem makes
      · intro binds vector elements isVector isSequence item member
        rw [← sameBinds] at binds
        obtain ⟨original, isOriginal, makes⟩ := getElem?_of_forall₂ steps isVector
        have originalCode : Code kept original :=
          inner (Code.isQuotation_of_bindsValues binds) original
            (List.mem_of_getElem? isOriginal)
        obtain ⟨found, isFound, each, isEach, makesEach⟩ :=
          relabels.element originalCode makes isSequence member
        exact boundHypothesis binds original found isOriginal isFound each isEach makesEach

end Relabels

namespace Value

theorem nameOf?_current (holdings : Holdings) (value : Value) :
    value.nameOf? = (current holdings value).nameOf? := by
  cases value with
  | list items birth =>
      rw [current]
      split <;> rfl
  | vector items birth =>
      rw [current]
      split <;> rfl
  | map entries birth =>
      rw [current]
      split <;> rfl
  | _ => rfl

theorem sequence?_current
    (holdings : Holdings) {value : Value} (isAtom : value.sequence? = none) :
    (current holdings value).sequence? = none := by
  cases value with
  | list items birth => cases isAtom
  | vector items birth => cases isAtom
  | map entries birth =>
      rw [current]
      split <;> rfl
  | _ => rfl

theorem forall₂_currentItems (holdings : Holdings) (items : List Value) :
    List.Forall₂ (fun value other => other = current holdings value) items
      (currentItems holdings items) := by
  induction items with
  | nil => exact .nil
  | cons item rest inductionHypothesis => exact .cons rfl inductionHypothesis

/-- Lists that have lost nothing keep their items when they are brought up to date. -/
theorem relabels_current
    {kept : Nat → Prop} {holdings : Holdings}
    (held : ∀ birth, kept birth → holdings.items birth = none) :
    Relabels kept kept fun value other => other = current holdings value where
  name := by
    rintro value _ rfl
    exact nameOf?_current holdings value
  atom := by
    rintro value _ rfl isAtom
    exact sequence?_current holdings isAtom
  vector := by
    rintro items birth _ known rfl
    refine ⟨currentItems holdings items, birth, ?_, known, forall₂_currentItems holdings items⟩
    rw [current, held birth known]
  list := by
    rintro items birth _ known rfl
    refine ⟨currentItems holdings items, birth, ?_, known, forall₂_currentItems holdings items⟩
    rw [current, held birth known]

theorem nameOf?_tellApart (next : Nat) (value : Value) :
    value.nameOf? = (tellApart next value).1.nameOf? := by
  cases value with
  | float number birth => cases number <;> rfl
  | _ => rfl

theorem sequence?_tellApart
    (next : Nat) {value : Value} (isAtom : value.sequence? = none) :
    (tellApart next value).1.sequence? = none := by
  cases value with
  | list items birth => cases isAtom
  | vector items birth => cases isAtom
  | float number birth => cases number <;> rfl
  | _ => rfl

theorem forall₂_tellItemsApart (next : Nat) (items : List Value) :
    List.Forall₂ (fun value other => ∃ next, other = (tellApart next value).1) items
      (tellItemsApart next items).1 := by
  induction items generalizing next with
  | nil => exact .nil
  | cons item rest inductionHypothesis =>
      exact .cons ⟨next, rfl⟩ (inductionHypothesis (tellApart next item).2)

/-- Telling lists apart leaves their items as they are. -/
theorem relabels_tellApart :
    Relabels (fun _ => True) (fun _ => True)
      fun value other => ∃ next, other = (tellApart next value).1 where
  name := by
    rintro value _ ⟨next, rfl⟩
    exact nameOf?_tellApart next value
  atom := by
    rintro value _ ⟨next, rfl⟩ isAtom
    exact sequence?_tellApart next isAtom
  vector := by
    rintro items birth _ _ ⟨next, rfl⟩
    exact ⟨_, _, rfl, trivial, forall₂_tellItemsApart next items⟩
  list := by
    rintro items birth _ _ ⟨next, rfl⟩
    exact ⟨_, _, rfl, trivial, forall₂_tellItemsApart next items⟩

end Value

namespace Code

/-- Code stays code while its lists keep their items. -/
theorem current
    {kept : Nat → Prop} {heap : Heap} {value : Value}
    (intact : ∀ birth, kept birth → heap.left? birth = none) (code : Code kept value) :
    Code kept (heap.current value) := by
  unfold Heap.current
  split
  · exact code
  · have held : ∀ birth, kept birth → heap.present.items birth = none :=
      fun birth known => Heap.items_present (intact birth known)
    exact (relabels_current held).code code rfl

theorem tellApart {value : Value} (next : Nat) (code : Code (fun _ => True) value) :
    Code (fun _ => True) (value.tellApart next).1 :=
  relabels_tellApart.code code ⟨next, rfl⟩

end Code

end CueScript
