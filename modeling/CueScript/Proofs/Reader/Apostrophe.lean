import CueScript.Proofs.Reader.Openings

/-!
# Apostrophes that nothing follows

A sequence that ends while an apostrophe waits for a form is at fault.  The fault names
an apostrophe of the text, and whoever reads on from there finds no form.

Only the innermost sequence matters: what is read inside a delimiter that follows an
apostrophe becomes a form as soon as the delimiter closes.
-/

namespace CueScript

namespace Sequence

/-- A reader that has nothing but the place and the mode of another. -/
def State.bare (state : State) : State := ⟨state.offset, state.mode, .empty, []⟩

/-- The last apostrophe that waits is one of the text, and whoever reads from behind it
has come as far as the reader and found nothing. -/
structure Waits (text rest : List Char) (state : State) : Prop where
  position : text.drop state.offset = rest
  last : ∀ (offset : Nat) (earlier : List Nat),
    state.level.quotes = offset :: earlier →
      text[offset]? = some '\'' ∧
        firstFormAt text (offset + 1) = firstFrom state.bare rest

/-- An apostrophe of a text that no form follows. -/
def QuotesNothing (text : List Char) (offset : Nat) : Prop :=
  text[offset]? = some '\'' ∧ firstFormAt text (offset + 1) = none

namespace Waits

variable {text rest : List Char} {state next : State} {c : Char}

theorem position_next
    (waits : Waits text (c :: rest) state) :
    text.drop (state.offset + 1) = rest := by
  rw [← List.drop_drop, waits.position]
  rfl

theorem current
    (waits : Waits text (c :: rest) state) :
    text[state.offset]? = some c := by
  rw [← List.head?_drop, waits.position]
  rfl

/-- No apostrophe waits any more. -/
theorem settled
    (waits : Waits text (c :: rest) state)
    (offset : next.offset = state.offset + 1)
    (quotes : next.level.quotes = []) :
    Waits text rest next where
  position := by
    rw [offset]
    exact waits.position_next
  last found earlier shape := by
    rw [quotes] at shape
    cases shape

/-- The reader goes on to another mode, and so does one that has found nothing. -/
theorem goOn
    {mode : Mode}
    (waits : Waits text (c :: rest) state)
    (bare : Sequence.step state.bare c (c :: rest) = .ok (enter state.bare mode)) :
    Waits text rest (enter state mode) where
  position := waits.position_next
  last offset earlier shape := by
    obtain ⟨apostrophe, reading⟩ := waits.last offset earlier shape
    refine ⟨apostrophe, ?_⟩
    rw [reading, firstFrom, bare]
    rfl

/-- The reader meets another apostrophe. -/
theorem another
    {level : Level}
    (waits : Waits text ('\'' :: rest) state)
    (quotes : level.quotes = state.offset :: state.level.quotes) :
    Waits text rest ⟨state.offset + 1, .between, level, state.outer⟩ where
  position := waits.position_next
  last offset earlier shape := by
    rw [quotes] at shape
    cases shape
    refine ⟨waits.current, ?_⟩
    rw [firstFormAt, waits.position_next]
    rfl

/-- What follows from a character between tokens: an apostrophe that nothing follows, or
the reader goes on. -/
def After (text rest : List Char) : Except SequenceFault State → Prop
  | .ok next => Waits text rest next
  | .error (.nothingQuoted offset) => QuotesNothing text offset
  | .error _ => True

theorem after_close
    {delimiter : Delimiter}
    (waits : Waits text (c :: rest) state)
    (bare : Sequence.step state.bare c (c :: rest) =
      close state.bare delimiter (c :: rest)) :
    After text rest (close state delimiter (c :: rest)) := by
  unfold close Level.items
  cases quotes : state.level.quotes with
  | cons offset earlier =>
      obtain ⟨apostrophe, reading⟩ := waits.last offset earlier quotes
      refine ⟨apostrophe, ?_⟩
      rw [reading, firstFrom, bare]
      rfl
  | nil =>
      cases around : state.outer with
      | nil => exact trivial
      | cons entry outer =>
          by_cases same : entry.1 = delimiter
          · simp only [bind, Except.bind, pure, Except.pure, if_pos same]
            exact waits.settled rfl rfl
          · simp only [bind, Except.bind, pure, Except.pure, if_neg same]
            exact trivial

theorem after_stepBetween
    (waits : Waits text (c :: rest) state)
    (between : state.mode = .between) :
    After text rest (stepBetween state c (c :: rest)) := by
  have bareStep :
      Sequence.step state.bare c (c :: rest) = stepBetween state.bare c (c :: rest) := by
    unfold Sequence.step State.bare
    rw [between]
  unfold stepBetween at bareStep ⊢
  by_cases blank : Text.isAsciiBlank c = true
  · rw [if_pos blank] at bareStep ⊢
    exact waits.goOn bareStep
  rw [if_neg blank] at bareStep ⊢
  by_cases quotation : c = '"'
  · rw [if_pos quotation] at bareStep ⊢
    exact waits.goOn bareStep
  rw [if_neg quotation] at bareStep ⊢
  by_cases semicolon : c = ';'
  · rw [if_pos semicolon] at bareStep ⊢
    exact waits.goOn bareStep
  rw [if_neg semicolon] at bareStep ⊢
  by_cases apostrophe : c = '\''
  · subst apostrophe
    exact waits.another rfl
  rw [if_neg apostrophe] at bareStep ⊢
  by_cases backslash : c = '\\'
  · rw [if_pos backslash] at bareStep ⊢
    exact waits.goOn bareStep
  rw [if_neg backslash] at bareStep ⊢
  cases opener : Delimiter.ofOpener? c with
  | some delimiter => exact waits.settled rfl rfl
  | none =>
      cases closer : Delimiter.ofCloser? c with
      | some delimiter =>
          simp only [opener, closer] at bareStep
          exact waits.after_close bareStep
      | none =>
          simp only [opener, closer] at bareStep
          exact waits.goOn bareStep

/-- A token that ends is a form, so that nothing waits behind it. -/
theorem finishToken
    (waits : Waits text rest state) :
    Waits text rest (Sequence.finishToken state) := by
  unfold Sequence.finishToken
  split
  · refine ⟨waits.position, fun offset earlier shape => ?_⟩
    cases shape
  · exact waits

theorem after_step
    (waits : Waits text (c :: rest) state) :
    After text rest (Sequence.step state c (c :: rest)) := by
  unfold Sequence.step
  cases mode : state.mode with
  | between => exact waits.after_stepBetween mode
  | comment =>
      refine waits.goOn ?_
      simp only [Sequence.step, State.bare, mode]
      rfl
  | string reversed =>
      by_cases quotation : c = '"'
      · simp only [if_pos quotation]
        exact waits.settled rfl rfl
      by_cases backslash : c = '\\'
      · simp only [if_neg quotation, if_pos backslash]
        refine waits.goOn ?_
        simp only [Sequence.step, State.bare, mode, if_neg quotation, if_pos backslash]
        rfl
      · simp only [if_neg quotation, if_neg backslash]
        refine waits.goOn ?_
        simp only [Sequence.step, State.bare, mode, if_neg quotation, if_neg backslash]
        rfl
  | stringEscape reversed =>
      refine waits.goOn ?_
      simp only [Sequence.step, State.bare, mode]
      rfl
  | tokenEscape reversed =>
      refine waits.goOn ?_
      simp only [Sequence.step, State.bare, mode]
      rfl
  | token reversed =>
      by_cases ends : endsToken c = true
      · simp only [if_pos ends]
        refine waits.finishToken.after_stepBetween ?_
        simp only [Sequence.finishToken, mode]
      by_cases backslash : c = '\\'
      · simp only [if_neg ends, if_pos backslash]
        refine waits.goOn ?_
        simp only [Sequence.step, State.bare, mode, if_neg ends, if_pos backslash]
        rfl
      · simp only [if_neg ends, if_neg backslash]
        refine waits.goOn ?_
        simp only [Sequence.step, State.bare, mode, if_neg ends, if_neg backslash]
        rfl

theorem firstFrom_bare_finishToken (state : State) :
    firstFrom (Sequence.finishToken state).bare [] = none := by
  obtain ⟨offset, mode, level, outer⟩ := state
  cases mode <;> rfl

/-- A text that ends while an apostrophe waits, in code, ends a sequence at fault. -/
theorem items_of_finish
    {offset : Nat}
    (ended : finish state = .error (.nothingQuoted offset)) :
    (Sequence.finishToken state).level.items = .error (.nothingQuoted offset) := by
  unfold finish at ended
  cases items : (Sequence.finishToken state).level.items with
  | error fault =>
      cases mode : state.mode with
      | string _ | stringEscape _ | tokenEscape _ =>
          rw [mode] at ended
          cases ended
      | between | comment | token _ =>
          rw [mode, items] at ended
          exact ended
  | ok forms =>
      cases mode : state.mode <;> cases outer : state.outer <;>
        rw [mode, items, outer] at ended <;> cases ended

theorem after_finish
    {offset : Nat}
    (waits : Waits text [] state)
    (ended : finish state = .error (.nothingQuoted offset)) :
    QuotesNothing text offset := by
  have atEnd := items_of_finish ended
  unfold Level.items at atEnd
  cases quotes : (Sequence.finishToken state).level.quotes with
  | nil =>
      rw [quotes] at atEnd
      cases atEnd
  | cons last earlier =>
      rw [quotes] at atEnd
      cases atEnd
      obtain ⟨apostrophe, reading⟩ := waits.finishToken.last offset earlier quotes
      refine ⟨apostrophe, ?_⟩
      rw [reading, firstFrom_bare_finishToken]

theorem run
    (waits : Waits text rest state) {last : State}
    (followed : Sequence.run state rest = .ok last) :
    Waits text [] last := by
  induction rest generalizing state with
  | nil =>
      cases followed
      exact waits
  | cons c rest inductionHypothesis =>
      have after := waits.after_step
      cases taken : Sequence.step state c (c :: rest) with
      | error fault => simp [Sequence.run, taken, bind, Except.bind] at followed
      | ok next =>
          rw [taken] at after
          simp only [Sequence.run, taken, bind, Except.bind] at followed
          exact inductionHypothesis after followed

theorem run_error
    (waits : Waits text rest state) {offset : Nat}
    (failed : Sequence.run state rest = .error (.nothingQuoted offset)) :
    QuotesNothing text offset := by
  induction rest generalizing state with
  | nil => cases failed
  | cons c rest inductionHypothesis =>
      have after := waits.after_step
      cases taken : Sequence.step state c (c :: rest) with
      | error fault =>
          simp only [Sequence.run, taken, bind, Except.bind, Except.error.injEq] at failed
          rw [taken, failed] at after
          exact after
      | ok next =>
          rw [taken] at after
          simp only [Sequence.run, taken, bind, Except.bind] at failed
          exact inductionHypothesis after failed

theorem start (text : List Char) : Waits text text Sequence.start where
  position := rfl
  last offset earlier shape := by cases shape

end Waits

/-- A text with an apostrophe that waits in vain has an apostrophe behind which no form
is found. -/
theorem quotesNothing_of_readSequence
    {text : List Char} {offset : Nat}
    (failed : readSequence text = .error (.nothingQuoted offset)) :
    QuotesNothing text offset := by
  unfold readSequence at failed
  cases followed : Sequence.run start text with
  | error fault =>
      simp only [followed, bind, Except.bind, Except.error.injEq] at failed
      rw [failed] at followed
      exact (Waits.start text).run_error followed
  | ok last =>
      simp only [followed, bind, Except.bind] at failed
      exact ((Waits.start text).run followed).after_finish failed

end Sequence

end CueScript
