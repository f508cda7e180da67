import CueScript.Proofs.Reader.Apostrophe

/-!
# The delimiter check and the reader in lockstep

The delimiter check and the reader follow a text by rules of their own.  They take it
for the same strings, comments and delimiters as long as no backslash stands outside of
both (`hasEscape`): only such a backslash can take a delimiter out of its role for the
reader.

The main statement says that, then, what passes the check can fail to read only for
want of a form after an apostrophe, and that the offsets the check gives are those at
which the lists of the text are read.
-/

namespace CueScript

namespace Nesting

/-- Whether a backslash stands in the code of the rest of a text. -/
def escapesFrom (state : State) : List Char → Bool
  | [] => false
  | c :: rest =>
      (state.mode == .code && c == '\\') ||
        match step state c with
        | .ok next => escapesFrom next rest
        | .error _ => false

end Nesting

/-- Whether a backslash of a text stands outside of strings and comments. -/
def hasEscape (text : List Char) : Bool := Nesting.escapesFrom Nesting.start text

namespace Sequence

/-- The check and the reader take the next character for part of the same. -/
inductive SameMode : Nesting.Mode → Mode → Prop
  | between : SameMode .code .between
  | token (reversed : List Char) : SameMode .code (.token reversed)
  | comment : SameMode .comment .comment
  | string (start : Nat) (reversed : List Char) :
      SameMode (.string start) (.string reversed)
  | escape (start : Nat) (reversed : List Char) :
      SameMode (.escape start) (.stringEscape reversed)

/-- The check and the reader are at the same place inside the same delimiters. -/
structure Aligned (checked : Nesting.State) (state : State) : Prop where
  offset : checked.offset = state.offset
  mode : SameMode checked.mode state.mode
  opened : checked.opened.map Prod.fst = state.outer.map Prod.fst

/-- The result of the reader where the check goes on to `next`: it stays aligned, or
there is nothing after an apostrophe. -/
def Follows (next : Nesting.State) : Except SequenceFault State → Prop
  | .ok read => Aligned next read
  | .error fault => ∃ offset, fault = .nothingQuoted offset

theorem aligned_start : Aligned Nesting.start start := ⟨rfl, .between, rfl⟩

/-- Neither the mark of a comment or string nor a delimiter. -/
def IsPlain (c : Char) : Prop :=
  c ≠ ';' ∧ c ≠ '"' ∧ Delimiter.ofOpener? c = none ∧ Delimiter.ofCloser? c = none

theorem isPlain_of_not_endsToken
    {c : Char} (goesOn : ¬ endsToken c = true) :
    IsPlain c := by
  simp only [endsToken, Bool.or_eq_true, not_or, beq_iff_eq,
    Option.isSome_iff_ne_none, Decidable.not_not] at goesOn
  obtain ⟨⟨⟨⟨-, noString⟩, noComment⟩, noOpener⟩, noCloser⟩ := goesOn
  exact ⟨noComment, noString, noOpener, noCloser⟩

theorem isPlain_of_isAsciiBlank
    {c : Char} (blank : Text.isAsciiBlank c = true) :
    IsPlain c := by
  refine ⟨?_, ?_, ?_, ?_⟩
  · rintro rfl
    exact absurd blank (by decide)
  · rintro rfl
    exact absurd blank (by decide)
  · unfold Delimiter.ofOpener?
    split
    · exact absurd blank (by decide)
    · exact absurd blank (by decide)
    · rfl
  · unfold Delimiter.ofCloser?
    split
    · exact absurd blank (by decide)
    · exact absurd blank (by decide)
    · rfl

theorem nesting_step_plain
    {checked next : Nesting.State} {c : Char}
    (code : checked.mode = .code)
    (plain : IsPlain c)
    (taken : Nesting.step checked c = .ok next) :
    next = Nesting.enter checked .code := by
  obtain ⟨noComment, noString, noOpener, noCloser⟩ := plain
  simp only [Nesting.step, code, if_neg noComment, if_neg noString, noOpener, noCloser]
    at taken
  cases taken
  rfl

/-- The end of a sequence that the check accepts ends the same sequence for the
reader. -/
theorem follows_close
    {checked next : Nesting.State} {state : State} {delimiter : Delimiter}
    {rest : List Char}
    (offset : checked.offset = state.offset)
    (opened : checked.opened.map Prod.fst = state.outer.map Prod.fst)
    (code : checked.mode = .code)
    (taken : Nesting.close checked delimiter = .ok next) :
    Follows next (close state delimiter rest) := by
  unfold Nesting.close at taken
  unfold close Level.items
  cases quotes : state.level.quotes with
  | cons last earlier => exact ⟨last, rfl⟩
  | nil =>
      cases checkedOpened : checked.opened with
      | nil =>
          rw [checkedOpened] at taken
          cases taken
      | cons entry checkedOuter =>
          rw [checkedOpened] at taken opened
          cases around : state.outer with
          | nil =>
              rw [around] at opened
              cases opened
          | cons sequence outer =>
              rw [around] at opened
              simp only [List.map_cons, List.cons.injEq] at opened
              obtain ⟨sameDelimiter, opened⟩ := opened
              by_cases same : entry.1 = delimiter
              · simp only [if_pos same] at taken
                cases taken
                simp only [bind, Except.bind, pure, Except.pure,
                  if_pos (sameDelimiter ▸ same)]
                exact ⟨congrArg (· + 1) offset, code ▸ .between, opened⟩
              · simp only [if_neg same] at taken
                cases taken

/-- The reader follows the check in code, where no token is under way. -/
theorem follows_stepBetween
    {checked next : Nesting.State} {state : State} {c : Char} {rest : List Char}
    (offset : checked.offset = state.offset)
    (opened : checked.opened.map Prod.fst = state.outer.map Prod.fst)
    (code : checked.mode = .code)
    (noEscape : c ≠ '\\')
    (taken : Nesting.step checked c = .ok next) :
    Follows next (stepBetween state c rest) := by
  have onwards : checked.offset + 1 = state.offset + 1 := congrArg (· + 1) offset
  unfold stepBetween
  by_cases blank : Text.isAsciiBlank c = true
  · rw [if_pos blank, nesting_step_plain code (isPlain_of_isAsciiBlank blank) taken]
    exact ⟨onwards, .between, opened⟩
  rw [if_neg blank]
  by_cases quotation : c = '"'
  · subst quotation
    simp only [Nesting.step, code] at taken
    cases taken
    exact ⟨onwards, .string _ _, opened⟩
  rw [if_neg quotation]
  by_cases semicolon : c = ';'
  · subst semicolon
    simp only [Nesting.step, code] at taken
    cases taken
    exact ⟨onwards, .comment, opened⟩
  rw [if_neg semicolon]
  by_cases apostrophe : c = '\''
  · subst apostrophe
    have plain : IsPlain '\'' := by
      unfold IsPlain
      decide
    rw [nesting_step_plain code plain taken]
    exact ⟨onwards, .between, opened⟩
  rw [if_neg apostrophe, if_neg noEscape]
  simp only [Nesting.step, code, if_neg semicolon, if_neg quotation] at taken
  cases opener : Delimiter.ofOpener? c with
  | some delimiter =>
      simp only [opener] at taken
      cases taken
      exact ⟨onwards, code ▸ .between, congrArg (delimiter :: ·) opened⟩
  | none =>
      cases closer : Delimiter.ofCloser? c with
      | some delimiter =>
          simp only [opener, closer] at taken
          exact follows_close offset opened code taken
      | none =>
          simp only [opener, closer] at taken
          cases taken
          exact ⟨onwards, .token [c], opened⟩

/-- The reader follows the check past any character but a backslash in code. -/
theorem follows_step
    {checked next : Nesting.State} {state : State} {c : Char} {rest : List Char}
    (aligned : Aligned checked state)
    (noEscape : ¬ (checked.mode = .code ∧ c = '\\'))
    (taken : Nesting.step checked c = .ok next) :
    Follows next (step state c rest) := by
  obtain ⟨offset, mode, opened⟩ := aligned
  have onwards : checked.offset + 1 = state.offset + 1 := congrArg (· + 1) offset
  obtain ⟨checkedOffset, checkedMode, checkedOpened, parens⟩ := checked
  obtain ⟨readOffset, readMode, level, outer⟩ := state
  cases mode with
  | between =>
      exact follows_stepBetween offset opened rfl (fun same => noEscape ⟨rfl, same⟩) taken
  | comment =>
      cases taken
      refine ⟨onwards, ?_, opened⟩
      by_cases lineEnds : c = '\n'
      · simp only [Nesting.enter, enter, if_pos lineEnds]
        exact .between
      · simp only [Nesting.enter, enter, if_neg lineEnds]
        exact .comment
  | escape start reversed =>
      cases taken
      exact ⟨onwards, .string _ _, opened⟩
  | string start reversed =>
      simp only [Nesting.step] at taken
      simp only [step]
      by_cases quotation : c = '"'
      · rw [if_pos quotation] at taken ⊢
        cases taken
        exact ⟨onwards, .between, opened⟩
      rw [if_neg quotation] at taken ⊢
      by_cases backslash : c = '\\'
      · rw [if_pos backslash] at taken ⊢
        cases taken
        exact ⟨onwards, .escape _ _, opened⟩
      · rw [if_neg backslash] at taken ⊢
        cases taken
        exact ⟨onwards, .string _ _, opened⟩
  | token reversed =>
      have noBackslash : c ≠ '\\' := fun same => noEscape ⟨rfl, same⟩
      simp only [step]
      by_cases ends : endsToken c = true
      · rw [if_pos ends]
        exact follows_stepBetween offset opened rfl noBackslash taken
      · rw [if_neg ends, if_neg noBackslash,
          nesting_step_plain rfl (isPlain_of_not_endsToken ends) taken]
        exact ⟨onwards, .token _, opened⟩

/-- In code the check notes the parentheses that open. -/
theorem parens_of_code
    {checked next : Nesting.State} {c : Char}
    (code : checked.mode = .code)
    (taken : Nesting.step checked c = .ok next) :
    next.parens = (if c == '(' then [checked.offset] else []) ++ checked.parens := by
  simp only [Nesting.step, code] at taken
  by_cases semicolon : c = ';'
  · subst semicolon
    cases taken
    rfl
  by_cases quotation : c = '"'
  · subst quotation
    cases taken
    rfl
  rw [if_neg semicolon, if_neg quotation] at taken
  cases opener : Delimiter.ofOpener? c with
  | some delimiter =>
      simp only [opener] at taken
      cases taken
      rw [opener_eq_paren_iff opener]
      cases delimiter <;> rfl
  | none =>
      rw [ne_paren_of_ofOpener?_eq_none opener]
      cases closer : Delimiter.ofCloser? c with
      | none =>
          simp only [opener, closer] at taken
          cases taken
          rfl
      | some delimiter =>
          simp only [opener, closer] at taken
          unfold Nesting.close at taken
          cases opened : checked.opened with
          | nil =>
              rw [opened] at taken
              cases taken
          | cons entry outer =>
              by_cases same : entry.1 = delimiter
              · simp only [opened, if_pos same] at taken
                cases taken
                rfl
              · simp only [opened, if_neg same] at taken
                cases taken

/-- The check notes an opening where the reader opens a list. -/
theorem parens_of_step
    {checked next : Nesting.State} {state : State} {c : Char}
    (aligned : Aligned checked state)
    (taken : Nesting.step checked c = .ok next) :
    next.parens =
      (if opensList state c then [state.offset] else []) ++ checked.parens := by
  obtain ⟨offset, mode, -⟩ := aligned
  obtain ⟨checkedOffset, checkedMode, checkedOpened, parens⟩ := checked
  obtain ⟨readOffset, readMode, level, outer⟩ := state
  simp only at offset
  subst offset
  cases mode with
  | between => exact parens_of_code rfl taken
  | token reversed => exact parens_of_code rfl taken
  | comment =>
      cases taken
      rfl
  | escape start reversed =>
      cases taken
      rfl
  | string start reversed =>
      simp only [Nesting.step] at taken
      split at taken
      · cases taken
        rfl
      · split at taken <;> cases taken <;> rfl

/-- The reader follows the check to the end of a text, or fails on the way for want of a
form after an apostrophe. -/
theorem follows_run
    {checked final : Nesting.State} {state : State} {rest : List Char}
    (aligned : Aligned checked state)
    (noEscape : Nesting.escapesFrom checked rest = false)
    (accepted : rest.foldlM Nesting.step checked = .ok final) :
    Follows final (run state rest) ∧
      ∀ last, run state rest = .ok last →
        final.parens = (openingsFrom state rest).reverse ++ checked.parens := by
  induction rest generalizing checked state with
  | nil =>
      cases accepted
      exact ⟨aligned, fun _ _ => rfl⟩
  | cons c rest inductionHypothesis =>
      cases taken : Nesting.step checked c with
      | error fault => simp [List.foldlM, taken, bind, Except.bind] at accepted
      | ok next =>
          simp only [List.foldlM, taken, bind, Except.bind] at accepted
          simp only [Nesting.escapesFrom, taken, Bool.or_eq_false_iff] at noEscape
          obtain ⟨noBackslash, noEscape⟩ := noEscape
          have follows : Follows next (step state c (c :: rest)) :=
            follows_step aligned (by simpa using noBackslash) taken
          cases read : step state c (c :: rest) with
          | error fault =>
              rw [read] at follows
              simp only [run, read, bind, Except.bind]
              exact ⟨follows, fun _ followed => by cases followed⟩
          | ok nextRead =>
              rw [read] at follows
              simp only [run, read, bind, Except.bind]
              obtain ⟨later, openings⟩ := inductionHypothesis follows noEscape accepted
              refine ⟨later, fun last followed => ?_⟩
              rw [openings last followed, parens_of_step aligned taken]
              simp only [openingsFrom, read, List.reverse_append, List.append_assoc]
              split <;> rfl

theorem error_of_items
    {level : Level} {fault : SequenceFault}
    (failed : level.items = .error fault) :
    ∃ offset, fault = .nothingQuoted offset := by
  unfold Level.items at failed
  split at failed
  · cases failed
    exact ⟨_, rfl⟩
  · cases failed

/-- Where the check finds nothing wrong at the end of a text, the reader can at most miss
a form after an apostrophe. -/
theorem error_of_finish
    {checked : Nesting.State} {state : State} {fault : SequenceFault}
    (aligned : Aligned checked state)
    (accepted : Nesting.faultAtEnd? checked = none)
    (failed : finish state = .error fault) :
    ∃ offset, fault = .nothingQuoted offset := by
  obtain ⟨-, mode, opened⟩ := aligned
  obtain ⟨checkedOffset, checkedMode, checkedOpened, parens⟩ := checked
  obtain ⟨readOffset, readMode, level, outer⟩ := state
  cases mode with
  | string start reversed => cases accepted
  | escape start reversed => cases accepted
  | between | comment | token reversed =>
      cases checkedOpened with
      | cons entry inner => cases accepted
      | nil =>
          have nothingAround : outer = [] := List.map_eq_nil_iff.mp opened.symm
          subst nothingAround
          simp only [finish, bind_pure] at failed
          exact error_of_items failed

/-- What passes the check can fail to read only for want of a form after an apostrophe,
and where it reads, the check has noted every opening of a list. -/
theorem readSequence_of_checkDelimiters
    {text : List Char} {offsets : List Nat}
    (noEscape : hasEscape text = false)
    (accepted : checkDelimiters text = .ok offsets) :
    (∀ fault, readSequence text = .error fault → ∃ offset, fault = .nothingQuoted offset) ∧
      ∀ forms, readSequence text = .ok forms → offsets = openings text := by
  unfold checkDelimiters at accepted
  cases checked : text.foldlM Nesting.step Nesting.start with
  | error fault => simp [checked, bind, Except.bind] at accepted
  | ok final =>
      simp only [checked, bind, Except.bind] at accepted
      cases faultAtEnd : Nesting.faultAtEnd? final with
      | some fault =>
          rw [faultAtEnd] at accepted
          cases accepted
      | none =>
          rw [faultAtEnd] at accepted
          cases accepted
          obtain ⟨follows, noted⟩ := follows_run aligned_start noEscape checked
          cases followed : run start text with
          | error fault =>
              rw [followed] at follows
              simp only [readSequence, followed, bind, Except.bind]
              refine ⟨fun reason failed => ?_, fun forms reads => by cases reads⟩
              cases failed
              exact follows
          | ok last =>
              rw [followed] at follows
              simp only [readSequence, followed, bind, Except.bind]
              refine ⟨fun fault failed => error_of_finish follows faultAtEnd failed, ?_⟩
              intro forms _
              rw [noted last followed]
              simp [openings, Nesting.start]

/-- A text without a backslash in its code that passes the delimiter check can only fail
to read at an apostrophe that no form follows.  If it reads, the check has noted one
parenthesis for each list, and reading from that of some number gives the list of that
number first. -/
theorem reading_follows_check
    {text : List Char} {offsets : List Nat}
    (noEscape : hasEscape text = false)
    (accepted : checkDelimiters text = .ok offsets) :
    (∀ fault, readSequence text = .error fault →
        ∃ offset, fault = .nothingQuoted offset ∧ QuotesNothing text offset) ∧
      ∀ forms, readSequence text = .ok forms →
        (Value.listNodesAll forms).length = offsets.length ∧
          ∀ (index offset : Nat), offsets[index]? = some offset →
            ∃ node, (Value.listNodesAll forms)[index]? = some node ∧
              firstFormAt text offset = some node := by
  obtain ⟨onlyFault, noted⟩ := readSequence_of_checkDelimiters noEscape accepted
  constructor
  · intro fault failed
    obtain ⟨offset, rfl⟩ := onlyFault fault failed
    exact ⟨offset, rfl, quotesNothing_of_readSequence failed⟩
  · intro forms reads
    rw [noted forms reads]
    exact openings_spec reads

/-- A text with delimiters in a string, in a comment and in quoted data. -/
def nestedSample : List Char := "(a [\"(\" (b)] ; (\n '(c))".toList

theorem reading_follows_check_nestedSample :
    ∃ forms, readSequence nestedSample = .ok forms ∧
      (Value.listNodesAll forms).length = 3 ∧
      ∃ node, (Value.listNodesAll forms)[1]? = some node ∧
        firstFormAt nestedSample 8 = some node := by
  have noEscape : hasEscape nestedSample = false := by decide +kernel
  have accepted : checkDelimiters nestedSample = .ok [0, 8, 19] := rfl
  have succeeds : (readSequence nestedSample).toBool = true := by decide +kernel
  obtain ⟨-, agree⟩ := reading_follows_check noEscape accepted
  cases reads : readSequence nestedSample with
  | error fault =>
      rw [reads] at succeeds
      cases succeeds
  | ok forms =>
      obtain ⟨counted, located⟩ := agree forms reads
      exact ⟨forms, rfl, counted, located 1 8 rfl⟩

end Sequence

end CueScript
