import CueScript.Proofs.Number.IntegerText
import CueScript.Proofs.Reader.Trees
import CueScript.Proofs.Run.Current
import CueScript.Proofs.Shape.Outline
import CueScript.Proofs.Shape.Preorder

/-!
# The wording of shape faults

What is wrong with a list is told with the text of the list and of a part of it.  Only an
integer can be without a text, when it has too many digits, and no such integer is read.
So there is a wording for whatever is wrong with the forms of a text.
-/

namespace CueScript

/-! ## Integers that are read -/

namespace Literal

-- Powers are those of the core library, as in the definitions.
attribute [local instance (2000)] instPowNat

theorem lt_ten_of_digitValue {c : Char} {digit : Nat} (isDigit : Text.digitValue? c = some digit) :
    digit < 10 := by
  unfold Text.digitValue? at isDigit
  simp only at isDigit
  split at isDigit
  · split at isDigit
    · rename_i bounds
      have upper : c.toNat ≤ '9'.toNat := bounds.2
      have nine : '9'.toNat = 57 := rfl
      cases isDigit
      omega
    · cases isDigit
  · obtain ⟨start, found, rfl⟩ := Option.map_eq_some_iff.mp isDigit
    have inside := List.find?_some found
    simp only [Bool.and_eq_true, decide_eq_true_eq] at inside
    omega

/-- A run of digits stands for a number of no more digits. -/
theorem digitsFrom_lt
    {value width : Nat} (small : value < 10 ^ width) (text : List Char) :
    (digitsFrom value width text).value < 10 ^ (digitsFrom value width text).width := by
  have next {digit value width : Nat} (below : digit < 10) (small : value < 10 ^ width) :
      10 * value + digit < 10 ^ (width + 1) := by
    rw [Nat.pow_succ]
    omega
  fun_induction digitsFrom value width text with
  | case1 => exact small
  | case2 value width c rest digit isDigit inductionHypothesis =>
      exact inductionHypothesis (next (lt_ten_of_digitValue isDigit) small)
  | case3 => exact small
  | case4 value width c rest _ digit isDigit inductionHypothesis =>
      exact inductionHypothesis (next (lt_ten_of_digitValue isDigit) small)
  | case5 => exact small

theorem takeDigits_lt (text : List Char) :
    (takeDigits text).value < 10 ^ (takeDigits text).width := by
  cases text with
  | nil => exact Nat.one_pos
  | cons c rest =>
      cases isDigit : Text.digitValue? c with
      | none =>
          simp only [takeDigits, isDigit]
          exact Nat.one_pos
      | some digit =>
          simp only [takeDigits, isDigit]
          exact digitsFrom_lt
            (Nat.lt_of_lt_of_eq (lt_ten_of_digitValue isDigit) (Nat.pow_one 10).symm) rest

/-- An integer that is read does not have too many digits. -/
theorem short_of_readInt
    {text : List Char} {number : Int} (isInt : readInt? text = some number) :
    (decimalDigits number.natAbs).length ≤ maxDigits := by
  unfold readInt? at isInt
  generalize takeSign (Text.stripWhile Text.surroundsNumber text) = signed at isInt
  obtain ⟨negative, body⟩ := signed
  have small := takeDigits_lt body
  simp only at isInt
  split at isInt
  · cases isInt
  · rename_i fits
    have within : (takeDigits body).value < 10 ^ maxDigits :=
      Nat.lt_of_lt_of_le small (Nat.pow_le_pow_right (by decide) (by omega))
    have value : number.natAbs = (takeDigits body).value := by
      split at isInt <;> cases isInt <;> simp
    rw [decimalDigits, value]
    exact (Nat.length_toDigits_le_iff (by decide) (by decide)).mpr within

end Literal

/-! ## Texts of trees -/

namespace Value

mutual

/-- Whether no integer in a tree has too many digits. -/
def IsShort : Value → Prop
  | .int number => (decimalDigits number.natAbs).length ≤ Literal.maxDigits
  | .list items _ => AreShort items
  | .vector items _ => AreShort items
  | .quoted form => IsShort form
  | _ => True

/-- The same for the items of a list. -/
def AreShort : List Value → Prop
  | [] => True
  | item :: rest => IsShort item ∧ AreShort rest

end

theorem areShort_iff {items : List Value} : AreShort items ↔ ∀ item ∈ items, IsShort item := by
  induction items with
  | nil => simp [AreShort]
  | cons item rest inductionHypothesis => simp [AreShort, inductionHypothesis]

/-- Whether a value is a tree without integers of too many digits. -/
def IsPrintable (tree : Value) : Prop := IsTree tree ∧ IsShort tree

theorem madeByReading_isPrintable : Sequence.MadeByReading IsPrintable where
  token token := by
    refine ⟨madeByReading_isTree.token token, ?_⟩
    unfold tokenValue
    split
    · rename_i number isInt
      exact Literal.short_of_readInt isInt
    · split <;> exact trivial
  string text := ⟨madeByReading_isTree.string text, trivial⟩
  quoted form printable := printable
  delimited delimiter items printable := by
    refine ⟨madeByReading_isTree.delimited delimiter items fun item member =>
      (printable item member).1, ?_⟩
    have short := areShort_iff.mpr fun item member => (printable item member).2
    cases delimiter <;> exact short

theorem IsPrintable.items
    {items : List Value} {birth : Nat} (printable : IsPrintable (.list items birth)) :
    ∀ item ∈ items, IsPrintable item :=
  fun item member =>
    ⟨allTrees_iff.mp printable.1.2 item member, areShort_iff.mp printable.2 item member⟩

theorem IsPrintable.elements
    {items : List Value} {birth : Nat} (printable : IsPrintable (.vector items birth)) :
    ∀ item ∈ items, IsPrintable item :=
  fun item member =>
    ⟨allTrees_iff.mp printable.1.2 item member, areShort_iff.mp printable.2 item member⟩

theorem IsPrintable.sequence
    {vector : Value} {items : List Value} (printable : IsPrintable vector)
    (isSequence : vector.sequence? = some items) :
    ∀ item ∈ items, IsPrintable item := by
  cases vector with
  | list found birth =>
      cases isSequence
      exact printable.items
  | vector found birth =>
      cases isSequence
      exact printable.elements
  | _ => cases isSequence

mutual

/-- A tree is up to date if lists without numbers have lost nothing. -/
theorem current_of_isTree
    {heap : Heap} (unnumbered : heap.left? 0 = none) (tree : Value) (isTree : IsTree tree) :
    heap.current tree = tree := by
  cases tree with
  | list items birth =>
      obtain ⟨rfl, areTrees⟩ := isTree
      rw [Heap.current_list unnumbered, map_current_of_allTrees unnumbered items areTrees]
  | vector items birth =>
      obtain ⟨rfl, areTrees⟩ := isTree
      rw [Heap.current_vector unnumbered, map_current_of_allTrees unnumbered items areTrees]
  | quoted form => rw [Heap.current_quoted, current_of_isTree unnumbered form isTree]
  | symbol name => exact Heap.current_symbol name
  | int number => exact Heap.current_int number
  | float number birth => exact Heap.current_float number birth
  | str text => exact Heap.current_str text
  | _ => exact isTree.elim

theorem map_current_of_allTrees
    {heap : Heap} (unnumbered : heap.left? 0 = none) (trees : List Value)
    (areTrees : AllTrees trees) :
    trees.map heap.current = trees := by
  cases trees with
  | nil => rfl
  | cons tree rest =>
      rw [List.map_cons, current_of_isTree unnumbered tree areTrees.1,
        map_current_of_allTrees unnumbered rest areTrees.2]

end

mutual

theorem source_of_isPrintable
    (showStore : List Enclosure → Nat → Except Failure String) (tree : Value)
    (isTree : IsTree tree) (short : IsShort tree) :
    ∃ text, source showStore tree = .ok text := by
  cases tree with
  | list items birth =>
      obtain ⟨texts, printed⟩ := sourceItems_of_printable showStore items isTree.2 short
      exact ⟨_, by rw [source, printed]; rfl⟩
  | vector items birth =>
      obtain ⟨texts, printed⟩ := sourceItems_of_printable showStore items isTree.2 short
      exact ⟨_, by rw [source, printed]; rfl⟩
  | quoted form =>
      obtain ⟨text, printed⟩ := source_of_isPrintable showStore form isTree short
      exact ⟨_, by rw [source, printed]; rfl⟩
  | int number =>
      refine ⟨decimalText number, ?_⟩
      have notLong : ¬ Literal.maxDigits < (decimalDigits number.natAbs).length :=
        Nat.not_lt.mpr short
      simp only [source, shown, integerText, if_neg notLong]
      rfl
  | symbol name => exact ⟨name, rfl⟩
  | float number birth => exact ⟨number.text, rfl⟩
  | str text => exact ⟨sourceString text, rfl⟩
  | _ => exact isTree.elim

theorem sourceItems_of_printable
    (showStore : List Enclosure → Nat → Except Failure String) (trees : List Value)
    (areTrees : AllTrees trees) (short : AreShort trees) :
    ∃ texts, sourceItems showStore trees = .ok texts := by
  cases trees with
  | nil => exact ⟨[], rfl⟩
  | cons tree rest =>
      obtain ⟨text, printed⟩ := source_of_isPrintable showStore tree areTrees.1 short.1
      obtain ⟨texts, restPrinted⟩ := sourceItems_of_printable showStore rest areTrees.2 short.2
      exact ⟨text :: texts, by rw [sourceItems, printed, restPrinted]; rfl⟩

end

/-- A printable tree has a text. -/
theorem IsPrintable.source
    {heap : Heap} (unnumbered : heap.left? 0 = none) {tree : Value}
    (printable : IsPrintable tree) :
    ∃ text, heap.source tree = .ok text := by
  unfold Heap.source
  rw [current_of_isTree unnumbered tree printable.1]
  exact source_of_isPrintable heap.showAnyStore tree printable.1 printable.2

mutual

/-- The lists of a printable tree hold printable trees. -/
theorem printable_of_metLists
    (quoted : Bool) (tree : Value) (printable : IsPrintable tree) :
    ∀ met ∈ metLists quoted tree, ∀ item ∈ met.items, IsPrintable item := by
  cases tree with
  | list items birth =>
      intro met member
      rcases List.mem_cons.mp member with rfl | inside
      · exact printable.items
      · exact printable_of_metListsAll _ items printable.items met inside
  | vector items birth => exact printable_of_metListsAll quoted items printable.elements
  | quoted form => exact printable_of_metLists true form printable
  | _ => exact fun _ member => nomatch member

theorem printable_of_metListsAll
    (quoted : Bool) (trees : List Value) (printable : ∀ tree ∈ trees, IsPrintable tree) :
    ∀ met ∈ metListsAll quoted trees, ∀ item ∈ met.items, IsPrintable item := by
  cases trees with
  | nil => exact fun _ member => nomatch member
  | cons tree rest =>
      intro met member
      rcases List.mem_append.mp member with inFirst | inRest
      · exact printable_of_metLists quoted tree (printable tree List.mem_cons_self) met inFirst
      · exact printable_of_metListsAll quoted rest
          (fun each isEach => printable each (List.mem_cons_of_mem tree isEach)) met inRest

end

end Value

/-! ## What is wrong with a list -/

namespace Malformation

/-- The part that a malformation is about, if it names one. -/
def part? : Malformation → Option Value
  | unbindable name => some name
  | badParameter parameter => some parameter
  | _ => none

/-- A malformation of which the part has a text has a wording. -/
theorem exists_text
    {heap : Heap} {why : Malformation}
    (printed : ∀ part, why.part? = some part → ∃ text, heap.source part = .ok text) :
    ∃ text, why.text heap = .ok text := by
  cases why with
  | unbindable name =>
      obtain ⟨text, isText⟩ := printed name rfl
      exact ⟨_, by rw [Malformation.text, isText]; rfl⟩
  | badParameter parameter =>
      obtain ⟨text, isText⟩ := printed parameter rfl
      exact ⟨_, by rw [Malformation.text, isText]; rfl⟩
  | _ => exact ⟨_, rfl⟩

end Malformation

namespace SpecialForm

/-- Whether the part that a fault is about, if it is about one, is of some kind. -/
def About (p : Value → Prop) : ShapeFault → Prop
  | .malformed why => ∀ part, why.part? = some part → p part
  | .arity .. => True

variable {p : Value → Prop}

theorem About.of_no_part {why : Malformation} (isNone : why.part? = none) :
    About p (.malformed why) :=
  fun part isPart => absurd (isPart.symm.trans isNone) (Option.some_ne_none part)

theorem bindingPairs_about
    {items : List Value} (all : ∀ item ∈ items, p item) {fault : ShapeFault}
    (failed : bindingPairs items = .error fault) :
    About p fault := by
  fun_induction bindingPairs items with
  | case1 name form rest inductionHypothesis =>
      cases later : bindingPairs rest with
      | error found =>
          rw [later] at failed inductionHypothesis
          cases failed
          exact inductionHypothesis
            (fun item member => all item (List.mem_cons_of_mem _ (List.mem_cons_of_mem _ member)))
            rfl
      | ok pairs =>
          rw [later] at failed
          cases failed
  | case2 name form rest _ =>
      cases failed
      rintro part ⟨⟩
      exact all name List.mem_cons_self
  | case3 => cases failed

theorem parameters_about
    {items : List Value} (all : ∀ item ∈ items, p item) {fault : ShapeFault}
    (failed : parameters items = .error fault) :
    About p fault := by
  fun_induction parameters items with
  | case1 => cases failed
  | case2 => cases failed
  | case3 =>
      cases failed
      exact .of_no_part rfl
  | case4 name others _ inductionHypothesis =>
      cases later : parameters others with
      | error found =>
          rw [later] at failed inductionHypothesis
          cases failed
          exact inductionHypothesis
            (fun item member => all item (List.mem_cons_of_mem _ member)) rfl
      | ok found =>
          rw [later] at failed
          cases failed
  | case5 other rest _ =>
      cases failed
      rintro part ⟨⟩
      exact all other List.mem_cons_self

section Parts

variable {form : List Value}
  (sequences : ∀ vector ∈ form, ∀ items, vector.sequence? = some items → ∀ item ∈ items, p item)

include sequences

theorem bindings_about {fault : ShapeFault} (failed : bindings form = .error fault) :
    About p fault := by
  unfold bindings at failed
  split at failed
  · rename_i vector _
    split at failed
    · rename_i items isSequence
      split at failed
      · exact bindingPairs_about
          (sequences vector (List.mem_cons_of_mem _ List.mem_cons_self) items isSequence) failed
      · cases failed
        exact .of_no_part rfl
    · cases failed
      exact .of_no_part rfl
  · cases failed
    exact .of_no_part rfl

theorem asLet_about {fault : ShapeFault} (failed : asLet form = .error fault) :
    About p fault := by
  unfold asLet at failed
  cases pairs : bindings form with
  | error found =>
      rw [pairs] at failed
      cases failed
      exact bindings_about sequences pairs
  | ok found =>
      rw [pairs] at failed
      cases failed

theorem asWhenLet_about {fault : ShapeFault} (failed : asWhenLet form = .error fault) :
    About p fault := by
  unfold asWhenLet at failed
  cases pairs : bindings form with
  | error found =>
      rw [pairs] at failed
      cases failed
      exact bindings_about sequences pairs
  | ok found =>
      rw [pairs] at failed
      simp only [bind, Except.bind] at failed
      split at failed
      · cases failed
      · cases failed
        exact .of_no_part rfl

theorem asIfLet_about {fault : ShapeFault} (failed : asIfLet form = .error fault) :
    About p fault := by
  unfold asIfLet at failed
  cases pairs : bindings form with
  | error found =>
      rw [pairs] at failed
      cases failed
      exact bindings_about sequences pairs
  | ok found =>
      rw [pairs] at failed
      simp only [bind, Except.bind] at failed
      split at failed
      · cases failed
      · cases failed
      · cases failed
        exact .of_no_part rfl

theorem functionOf_about {name : String} {fault : ShapeFault}
    (failed : functionOf name form = .error fault) :
    About p fault := by
  unfold functionOf at failed
  split at failed
  · cases failed
    exact .of_no_part rfl
  · rename_i vector body
    split at failed
    · cases failed
      exact .of_no_part rfl
    · rename_i items isSequence
      cases found : parameters items with
      | error found' =>
          rw [found] at failed
          cases failed
          exact parameters_about (sequences vector List.mem_cons_self items isSequence) found
      | ok found' =>
          rw [found] at failed
          cases failed

theorem asFunction_about {fault : ShapeFault} (failed : asFunction form = .error fault) :
    About p fault := by
  have inTail : ∀ vector ∈ form.tail, ∀ items, vector.sequence? = some items →
      ∀ item ∈ items, p item :=
    fun vector member => sequences vector (List.mem_of_mem_tail member)
  unfold asFunction at failed
  split at failed
  · rename_i name parts isTail
    rw [isTail] at inTail
    exact functionOf_about (fun vector member => inTail vector (List.mem_cons_of_mem _ member))
      failed
  · exact functionOf_about inTail failed

/-- What is wrong with a list is about items of its items. -/
theorem ofForm_about {head : String} {fault : ShapeFault}
    (failed : ofForm? head form = some (.error fault)) :
    About p fault := by
  unfold ofForm? at failed
  split at failed <;> simp only [Option.some.injEq, reduceCtorEq] at failed
  · unfold asQuote at failed
    split at failed
    · cases failed
    · cases failed
      exact trivial
  · unfold asIf at failed
    split at failed
    · cases failed
    · cases failed
    · cases failed
      exact trivial
  · unfold asGuarded at failed
    split at failed
    · cases failed
    · cases failed
      exact trivial
  · unfold asGuarded at failed
    split at failed
    · cases failed
    · cases failed
      exact trivial
  · cases failed
  · cases failed
  · cases failed
  · exact asLet_about sequences failed
  · exact asWhenLet_about sequences failed
  · exact asIfLet_about sequences failed
  · unfold asCond at failed
    split at failed
    · cases failed
    · cases failed
      exact .of_no_part rfl
  · exact asFunction_about sequences failed

end Parts

end SpecialForm

namespace ShapeCheck

theorem exists_of_faultOf
    {form : List Value} {fault : ShapeFault} (isFault : faultOf form = some fault) :
    ∃ head, SpecialForm.ofForm? head form = some (.error fault) ∧
      form.headD .nil = .symbol head := by
  unfold faultOf at isFault
  split at isFault
  · rename_i head rest
    split at isFault
    · rename_i found isForm
      cases isFault
      exact ⟨head, isForm, rfl⟩
    · cases isFault
  · cases isFault

/-- A check that ends with a fault has found it in a list that it went through. -/
theorem exists_met_of_fault
    {forms form : List Value} {fault : ShapeFault}
    (found : (run forms).fault = some (form, fault)) :
    ∃ met ∈ Value.metListsAll false forms, met.items = form ∧ faultOf form = some fault := by
  rw [run_eq_through] at found
  generalize Value.metListsAll false forms = lists at found ⊢
  generalize 0 = seen at found
  induction lists generalizing seen with
  | nil => cases found
  | cons met rest inductionHypothesis =>
      rw [through] at found
      split at found
      · rename_i found' isFault
        cases found
        unfold MetList.fault? at isFault
        split at isFault
        · cases isFault
        · exact ⟨met, List.mem_cons_self, rfl, isFault⟩
      · obtain ⟨other, member, same⟩ := inductionHypothesis _ found
        exact ⟨other, List.mem_cons_of_mem met member, same⟩

/-- There is a wording for what is wrong with the forms of a text, and it is of the kind
that evaluating the list at fault would raise. -/
theorem exists_report
    {heap : Heap} (unnumbered : heap.left? 0 = none) {text : List Char}
    {forms form : List Value} {fault : ShapeFault} (reads : read text = .ok forms)
    (found : (run forms).fault = some (form, fault)) :
    ∃ raised report, fault.toFault heap form = .ok raised ∧ raised.report? = some report ∧
      report.errorClass.isEvaluationError = true := by
  obtain ⟨met, member, rfl, isFault⟩ := exists_met_of_fault found
  have printable := Value.printable_of_metListsAll false forms
    (kind_of_read Value.madeByReading_isPrintable reads) met member
  obtain ⟨head, failed, isHead⟩ := exists_of_faultOf isFault
  have about : SpecialForm.About Value.IsPrintable fault :=
    SpecialForm.ofForm_about (fun vector inside items isSequence =>
      (printable vector inside).sequence isSequence) failed
  cases fault with
  | arity name expected got => exact ⟨_, _, rfl, rfl, rfl⟩
  | malformed why =>
      obtain ⟨reason, isReason⟩ := Malformation.exists_text fun part isPart =>
        (about part isPart).source unnumbered
      have whole : Value.IsPrintable (.list met.items 0) :=
        Value.madeByReading_isPrintable.delimited .paren met.items printable
      obtain ⟨spelled, isSpelled⟩ := whole.source unnumbered
      have headText : heap.source (met.items.headD .nil) = .ok head := by
        rw [isHead, Heap.source, Heap.current_symbol]
        rfl
      refine ⟨.malformed ("Malformed " ++ head ++ ": " ++ reason ++ " in " ++ spelled), _, ?_, rfl,
        rfl⟩
      rw [ShapeFault.toFault, headText, isReason, isSpelled]
      rfl

end ShapeCheck

end CueScript
