import Mathlib.Data.List.Basic
import CueScript.Expression
import CueScript.Proofs.Reader.Place
import CueScript.Proofs.Shape.Preorder

/-!
# Where a misshapen form is reported

An expression with a misshapen form outside of quoted data does not compile.  The
report is about the first such form, and its span is at one of the parentheses that the
delimiter check has noted: the one with the number of the form.

So the span is the place of the form exactly if that parenthesis is the one at which
the form opens.  Without a backslash outside of strings and comments it always is.
-/

namespace CueScript

/-- A misshapen form outside of quoted data: its number among the lists of a text, and
the offset at which it opens. -/
structure MisshapenAt (text : List Char) (forms : List Value) (index offset : Nat)
    (met : MetList) : Prop where
  meets : (Value.metListsAll false forms)[index]? = some met
  misshapen : met.fault?.isSome
  opens : (Sequence.openings text)[index]? = some offset
  first : Sequence.firstFormAt text offset = some met.node

/-- The offset that the delimiter check has noted for the list of some number. -/
def notedOffset? (text : List Char) (index : Nat) : Option Nat :=
  match checkDelimiters text with
  | .ok offsets => offsets[index]?
  | .error _ => none

/-- A text with a list reads as a sequence and passes the delimiter check. -/
theorem sequence_of_read
    {text : List Char} {forms : List Value}
    (reads : read text = .ok forms)
    (nonempty : forms ≠ []) :
    readSequence text = .ok forms ∧ ∃ offsets, checkDelimiters text = .ok offsets := by
  unfold read at reads
  cases accepted : checkDelimiters text with
  | error fault => simp [accepted, Except.mapError, bind, Except.bind] at reads
  | ok offsets =>
      simp only [accepted, Except.mapError, bind, Except.bind] at reads
      split at reads
      · cases reads
        exact absurd rfl nonempty
      · cases sequence : readSequence text with
        | error fault =>
            rw [sequence] at reads
            cases reads
        | ok found =>
            rw [sequence] at reads
            cases reads
            exact ⟨rfl, offsets, rfl⟩

/-- Every misshapen form has an offset at which it opens. -/
theorem misshapenAt_of_met
    {text : List Char} {forms : List Value} {index : Nat} {met : MetList}
    (reads : readSequence text = .ok forms)
    (meets : (Value.metListsAll false forms)[index]? = some met)
    (misshapen : met.fault?.isSome) :
    ∃ offset, MisshapenAt text forms index offset met := by
  obtain ⟨counted, located⟩ := Sequence.openings_spec reads
  have isNode : (Value.listNodesAll forms)[index]? = some met.node := by
    rw [← Value.map_node_metListsAll false, List.getElem?_map, meets]
    rfl
  have inRange : index < (Sequence.openings text).length := by
    rw [← counted]
    exact (List.getElem?_eq_some_iff.mp isNode).1
  refine ⟨(Sequence.openings text)[index], meets, misshapen, by simp [inRange], ?_⟩
  obtain ⟨node, sameNode, first⟩ :=
    located index _ (List.getElem?_eq_some_iff.mpr ⟨inRange, rfl⟩)
  rw [isNode, Option.some.injEq] at sameNode
  rw [first, sameNode]

/-- The misshapen form with the least number opens first. -/
theorem offset_le_of_index_le
    {text : List Char} {forms : List Value} {index other offset otherOffset : Nat}
    {met otherMet : MetList}
    (misshapen : MisshapenAt text forms index offset met)
    (otherMisshapen : MisshapenAt text forms other otherOffset otherMet)
    (order : index ≤ other) :
    offset ≤ otherOffset := by
  obtain ⟨bound, rfl⟩ := List.getElem?_eq_some_iff.mp misshapen.opens
  obtain ⟨otherBound, rfl⟩ := List.getElem?_eq_some_iff.mp otherMisshapen.opens
  rcases Nat.eq_or_lt_of_le order with rfl | before
  · exact Nat.le_refl _
  · have increasing := Sequence.openingsFrom_increasing Sequence.start text
    exact Nat.le_of_lt (List.pairwise_iff_getElem.mp increasing _ _ bound otherBound before)

namespace Expression

/-- The span of the list that a check entered last is the place of an offset exactly if
this is the offset noted for that list. -/
theorem placeOf_eq_iff
    {text : List Char} {index offset : Nat} {filename : String}
    (inside : offset < text.length) :
    placeOf text (index + 1) filename = Span.atOffset text offset filename ↔
      notedOffset? text index = some offset := by
  unfold placeOf notedOffset?
  cases accepted : checkDelimiters text with
  | error fault =>
      simp only [reduceCtorEq, iff_false]
      exact fun same => Span.atOffset_ne_inFile text offset filename same.symm
  | ok offsets =>
      cases noted : offsets[index]? with
      | none =>
          simp only [noted, reduceCtorEq, iff_false]
          exact fun same => Span.atOffset_ne_inFile text offset filename same.symm
      | some found =>
          have foundInside : found < text.length :=
            lt_of_mem_checkDelimiters accepted (List.mem_of_getElem? noted)
          simp only [noted, Option.some.injEq]
          constructor
          · intro same
            exact Span.atOffset_injective (Nat.le_of_lt foundInside) (Nat.le_of_lt inside)
              same
          · rintro rfl
            rfl

/-- What compiling reports of forms whose check finds a fault. -/
theorem compile_of_fault
    {source : ExpressionSource} {forms : List Value} {seen : Nat} {form : List Value}
    {fault : ShapeFault} (globals : Nat) {heap : Heap}
    (reads : read source.text.toList = .ok forms)
    (found : ShapeCheck.run forms = ⟨seen, some (form, fault)⟩) :
    ((compile source globals).run heap).1.outcome =
      .error (shapeReport source.text.toList source.label seen
        (faultReport heap form fault)) := by
  have refused : formsOf heap source.text.toList source.label =
      .error (shapeReport source.text.toList source.label seen
        (faultReport heap form fault)) := by
    simp only [formsOf, reads, found, Except.mapError, bind, Except.bind]
    rfl
  simp only [compile, get, getThe, MonadStateOf.get, StateT.get, StateT.run, bind,
    StateT.bind, pure, refused]
  rfl

/-- An expression that reads and has a misshapen form outside of quoted data does not
compile.  The report is about the first such form in the text: its span is at the
form exactly if the delimiter check has noted the parenthesis of the form under the
number of the form, which it has where no backslash stands outside of strings and
comments. -/
theorem compile_misshapen
    {source : ExpressionSource} {forms : List Value}
    (reads : read source.text.toList = .ok forms)
    (contains : ∃ met ∈ Value.metListsAll false forms, met.fault?.isSome)
    (globals : Nat) (heap : Heap) :
    ∃ (index offset : Nat) (met : MetList) (report : Report),
      MisshapenAt source.text.toList forms index offset met ∧
      (∀ (other otherOffset : Nat) (otherMet : MetList),
        MisshapenAt source.text.toList forms other otherOffset otherMet →
          offset ≤ otherOffset) ∧
      ((compile source globals).run heap).1.outcome = .error report ∧
      report.errorClass = .compile ∧
      report.diagnostic.code = .invalidSpecialForm ∧
      (report.diagnostic.span = Span.atOffset source.text.toList offset source.label ↔
        notedOffset? source.text.toList index = some offset) ∧
      (hasEscape source.text.toList = false →
        report.diagnostic.span =
          Span.atOffset source.text.toList offset source.label) := by
  have nonempty : forms ≠ [] := by
    rintro rfl
    obtain ⟨met, member, -⟩ := contains
    cases member
  obtain ⟨sequence, offsets, accepted⟩ := sequence_of_read reads nonempty
  obtain ⟨index, met, fault, meets, isFault, first, checked⟩ :=
    @ShapeCheck.through_of_misshapen 0 _ contains
  rw [← ShapeCheck.run_eq_through, Nat.zero_add] at checked
  have misshapen : met.fault?.isSome := by
    rw [isFault]
    rfl
  obtain ⟨offset, located⟩ := misshapenAt_of_met sequence meets misshapen
  have inside : offset < source.text.toList.length := by
    have bounds := Sequence.mem_openingsFrom (List.mem_of_getElem? located.opens)
    simpa [Sequence.start] using bounds.2
  refine ⟨index, offset, met, _, located, ?_, compile_of_fault globals reads checked,
    rfl, rfl, placeOf_eq_iff inside, ?_⟩
  · intro other otherOffset otherMet otherLocated
    exact offset_le_of_index_le located otherLocated
      (first other otherMet otherLocated.meets otherLocated.misshapen)
  · intro noEscape
    refine (placeOf_eq_iff inside).mpr ?_
    obtain ⟨-, noted⟩ := Sequence.readSequence_of_checkDelimiters noEscape accepted
    rw [notedOffset?, accepted, noted forms sequence]
    exact located.opens

/-- A source with a quoted list before a misshapen form of the same shape. -/
def quotedFirst : ExpressionSource := { text := "'(if) (if)", table := [] }

theorem compile_quotedFirst :
    ∃ report,
      ((compile quotedFirst 0).run Heap.empty).1.outcome = .error report ∧
        report.diagnostic.span =
          Span.atOffset quotedFirst.text.toList 6 quotedFirst.label := by
  have chars : quotedFirst.text.toList =
      ['\'', '(', 'i', 'f', ')', ' ', '(', 'i', 'f', ')'] := by
    decide +kernel
  have reads : read quotedFirst.text.toList =
      .ok [.quoted (.list [.symbol "if"] 0), .list [.symbol "if"] 0] := by
    rw [chars]
    rfl
  have noEscape : hasEscape quotedFirst.text.toList = false := by
    decide +kernel
  obtain ⟨index, offset, met, report, located, -, fails, -, -, -, placed⟩ :=
    compile_misshapen reads ⟨⟨false, [.symbol "if"], 0⟩, .tail _ (.head _), rfl⟩ 0 Heap.empty
  refine ⟨report, fails, ?_⟩
  rw [placed noEscape]
  -- The quoted list is not misshapen, and there is no third one.
  match index, located with
  | 0, ⟨meets, misshapen, _, _⟩ =>
      cases meets
      cases misshapen
  | 1, ⟨_, _, opens, _⟩ =>
      rw [chars] at opens
      cases opens
      rfl
  | _ + 2, ⟨meets, _, _, _⟩ => cases meets

/-- A source with an escaped parenthesis before a misshapen form. -/
def escapedParen : ExpressionSource := { text := "\\( (if) \\)", table := [] }

/-- The delimiter check notes the escaped parenthesis, and the form is reported there. -/
theorem compile_escapedParen :
    ∃ forms,
      read escapedParen.text.toList = .ok forms ∧
      MisshapenAt escapedParen.text.toList forms 0 3 ⟨false, [.symbol "if"], 0⟩ ∧
      ∃ report,
        ((compile escapedParen 0).run Heap.empty).1.outcome = .error report ∧
          report.diagnostic.span =
            Span.atOffset escapedParen.text.toList 1 escapedParen.label ∧
          report.diagnostic.span ≠
            Span.atOffset escapedParen.text.toList 3 escapedParen.label := by
  have chars : escapedParen.text.toList =
      ['\\', '(', ' ', '(', 'i', 'f', ')', ' ', '\\', ')'] := by
    decide +kernel
  have reads : read escapedParen.text.toList =
      .ok [.symbol "(", .list [.symbol "if"] 0, .symbol ")"] := by
    rw [chars]
    rfl
  refine ⟨_, reads, ?_, _, compile_of_fault 0 reads rfl, ?_, ?_⟩
  · rw [chars]
    exact ⟨rfl, rfl, rfl, rfl⟩
  · rw [chars]
    rfl
  · rw [chars]
    decide +kernel

end Expression

end CueScript
