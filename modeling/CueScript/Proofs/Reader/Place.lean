import CueScript.Diagnostic.Span
import CueScript.Proofs.Reader.Lockstep

/-!
# Places of openings

The openings of a text, and the offsets that the delimiter check notes, are offsets of
its characters; the openings come in increasing order.  Offsets that are different have
different places, so that a span tells which opening it is about.
-/

namespace CueScript

namespace Span

/-! ## Offsets from places -/

theorem lineAfter_append (before after : List Char) :
    lineAfter (before ++ after) = lineAfter before + after.count '\n' := by
  unfold lineAfter
  rw [List.count_append]
  omega

theorem columnAfter_append
    {before after : List Char} (sameLine : '\n' ∉ after) :
    columnAfter (before ++ after) = columnAfter before + after.length := by
  unfold columnAfter
  rw [List.reverse_append, List.takeWhile_append_of_pos]
  · rw [List.length_append, List.length_reverse]
    omega
  · intro c member
    rw [bne_iff_ne]
    rintro rfl
    exact sameLine (List.mem_reverse.mp member)

theorem eq_nil_of_samePlace
    {before after : List Char}
    (line : lineAfter (before ++ after) = lineAfter before)
    (column : columnAfter (before ++ after) = columnAfter before) :
    after = [] := by
  rw [lineAfter_append] at line
  have sameLine : '\n' ∉ after := by
    apply List.count_eq_zero.mp
    omega
  rw [columnAfter_append sameLine] at column
  apply List.length_eq_zero_iff.mp
  omega

theorem atOffset_eq_iff_places (text : List Char) (first second : Nat) (file : String) :
    atOffset text first file = atOffset text second file ↔
      lineAfter (text.take first) = lineAfter (text.take second) ∧
        columnAfter (text.take first) = columnAfter (text.take second) := by
  simp only [atOffset, point, make, Int.toNat_natCast, if_true, Span.mk.injEq, true_and]
  omega

/-- Different offsets within a text have different places. -/
theorem atOffset_injective
    {text : List Char} {first second : Nat} {file : String}
    (firstInside : first ≤ text.length)
    (secondInside : second ≤ text.length)
    (samePlace : atOffset text first file = atOffset text second file) :
    first = second := by
  have ordered : ∀ {low high : Nat}, low ≤ high → high ≤ text.length →
      atOffset text high file = atOffset text low file → low = high := by
    intro low high order inside same
    obtain ⟨line, column⟩ := (atOffset_eq_iff_places text high low file).mp same
    have split : text.take high = text.take low ++ (text.drop low).take (high - low) := by
      rw [← List.take_add]
      congr 1
      omega
    rw [split] at line column
    have nothing := eq_nil_of_samePlace line column
    have none := congrArg List.length nothing
    simp only [List.length_take, List.length_drop, List.length_nil] at none
    omega
  rcases Nat.le_total first second with order | order
  · exact ordered order secondInside samePlace.symm
  · exact (ordered order firstInside samePlace).symm

/-- An offset has a line, which a file alone does not. -/
theorem atOffset_ne_inFile (text : List Char) (offset : Nat) (file : String) :
    atOffset text offset file ≠ inFile file := by
  intro same
  have line := congrArg Span.line same
  simp only [atOffset, inFile, point, make, lineAfter] at line
  omega

end Span

namespace Sequence

/-! ## Openings are offsets of the text -/

theorem offset_of_step
    {state next : State} {c : Char} {rest : List Char}
    (taken : step state c rest = .ok next) :
    next.offset = state.offset + 1 := by
  cases move_of_step taken <;> rfl

theorem mem_openingsFrom
    {state : State} {rest : List Char} {offset : Nat}
    (member : offset ∈ openingsFrom state rest) :
    state.offset ≤ offset ∧ offset < state.offset + rest.length := by
  induction rest generalizing state with
  | nil => cases member
  | cons c rest inductionHypothesis =>
      have here : offset ∈ (if opensList state c then [state.offset] else []) →
          offset = state.offset := by
        intro member
        split at member
        · exact List.mem_singleton.mp member
        · cases member
      rw [List.length_cons]
      cases taken : step state c (c :: rest) with
      | error fault =>
          simp only [openingsFrom, taken] at member
          have := here member
          omega
      | ok next =>
          simp only [openingsFrom, taken] at member
          rcases List.mem_append.mp member with member | member
          · have := here member
            omega
          · have later := inductionHypothesis member
            rw [offset_of_step taken] at later
            omega

/-- Lists open one after the other. -/
theorem openingsFrom_increasing (state : State) (rest : List Char) :
    (openingsFrom state rest).Pairwise (· < ·) := by
  induction rest generalizing state with
  | nil => exact List.Pairwise.nil
  | cons c rest inductionHypothesis =>
      cases taken : step state c (c :: rest) with
      | error fault =>
          simp only [openingsFrom, taken]
          split
          · exact List.pairwise_singleton _ _
          · exact List.Pairwise.nil
      | ok next =>
          simp only [openingsFrom, taken]
          split
          · refine List.pairwise_cons.mpr ⟨fun offset member => ?_, inductionHypothesis next⟩
            have later := mem_openingsFrom member
            rw [offset_of_step taken] at later
            omega
          · exact inductionHypothesis next

end Sequence

namespace Nesting

theorem offset_of_close
    {state next : State} {delimiter : Delimiter}
    (taken : close state delimiter = .ok next) :
    next.offset = state.offset + 1 := by
  unfold close at taken
  split at taken
  · cases taken
  · split at taken
    · cases taken
      rfl
    · cases taken

theorem offset_of_step
    {state next : State} {c : Char}
    (taken : step state c = .ok next) :
    next.offset = state.offset + 1 := by
  unfold step at taken
  split at taken
  · cases taken
    rfl
  · cases taken
    rfl
  · split at taken
    · cases taken
      rfl
    · split at taken <;> cases taken <;> rfl
  · split at taken
    · cases taken
      rfl
    · split at taken
      · cases taken
        rfl
      · split at taken
        · cases taken
          rfl
        · exact offset_of_close taken
        · cases taken
          rfl

theorem mem_parens_of_step
    {state next : State} {c : Char}
    (taken : step state c = .ok next) :
    ∀ offset ∈ next.parens, offset ∈ state.parens ∨ offset = state.offset := by
  intro offset member
  cases mode : state.mode with
  | code =>
      rw [Sequence.parens_of_code mode taken, List.mem_append] at member
      rcases member with member | member
      · split at member
        · exact .inr (List.mem_singleton.mp member)
        · cases member
      · exact .inl member
  | comment | escape start =>
      simp only [step, mode] at taken
      cases taken
      exact .inl member
  | string start =>
      simp only [step, mode] at taken
      split at taken
      · cases taken
        exact .inl member
      · split at taken <;> cases taken <;> exact .inl member

/-- The check notes offsets of the text. -/
theorem parens_of_foldlM
    {state final : State} {rest : List Char}
    (before : ∀ offset ∈ state.parens, offset < state.offset)
    (followed : rest.foldlM step state = .ok final) :
    ∀ offset ∈ final.parens, offset < state.offset + rest.length := by
  induction rest generalizing state with
  | nil =>
      cases followed
      simpa using before
  | cons c rest inductionHypothesis =>
      cases taken : step state c with
      | error fault => simp [List.foldlM, taken, bind, Except.bind] at followed
      | ok next =>
          simp only [List.foldlM, taken, bind, Except.bind] at followed
          have onwards := offset_of_step taken
          have beforeNext : ∀ offset ∈ next.parens, offset < next.offset := by
            intro offset member
            rcases mem_parens_of_step taken offset member with member | rfl
            · have := before offset member
              omega
            · omega
          intro offset member
          have bound := inductionHypothesis beforeNext followed offset member
          rw [List.length_cons]
          omega

end Nesting

theorem lt_of_mem_checkDelimiters
    {text : List Char} {offsets : List Nat} {offset : Nat}
    (accepted : checkDelimiters text = .ok offsets)
    (member : offset ∈ offsets) :
    offset < text.length := by
  unfold checkDelimiters at accepted
  cases followed : text.foldlM Nesting.step Nesting.start with
  | error fault => simp [followed, bind, Except.bind] at accepted
  | ok final =>
      simp only [followed, bind, Except.bind] at accepted
      cases atEnd : Nesting.faultAtEnd? final with
      | some fault =>
          rw [atEnd] at accepted
          cases accepted
      | none =>
          rw [atEnd] at accepted
          cases accepted
          have noted : ∀ offset ∈ Nesting.start.parens, offset < Nesting.start.offset := by
            intro offset member
            cases member
          have bound :=
            Nesting.parens_of_foldlM noted followed offset (List.mem_reverse.mp member)
          simpa [Nesting.start] using bound

end CueScript
