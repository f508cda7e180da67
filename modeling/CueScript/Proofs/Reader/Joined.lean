import CueScript.Proofs.Reader.Place
import CueScript.Proofs.Reader.Printed
import CueScript.Proofs.Reader.Trees

/-!
# Texts one below the other

A text that reads leaves both scanners in their ground state once its last line has
ended, whatever strings, comments and escapes it holds.  From there on each scanner goes
through another text as it would from the start, only further on: `Nesting.State.later`
and `Sequence.Later` say where it stands instead.  So two texts that read, one below the
other, read to the forms of both.

One case is left out.  A text of Unicode white space reads to no form at all, but for the
parser only the ASCII blanks separate tokens, and all other white space makes symbols.
Such a text (`OddlyBlank`) adds its symbols as soon as a visible text stands beside it.
-/

namespace CueScript

/-! ## The nesting check -/

namespace Nesting

/-- The same kind of text, `distance` characters further on. -/
def Mode.later (distance : Nat) : Mode → Mode
  | code => code
  | comment => comment
  | string start => .string (start + distance)
  | escape start => .escape (start + distance)

/-- The same state `distance` characters further on, after some parentheses. -/
def State.later (distance : Nat) (earlier : List Nat) (state : State) : State :=
  { offset := state.offset + distance
    mode := state.mode.later distance
    opened := state.opened.map fun entry => (entry.1, entry.2 + distance)
    parens := state.parens.map (· + distance) ++ earlier }

section Later

variable {distance : Nat} {earlier : List Nat}

theorem enter_later (state : State) (mode : Mode) :
    enter (state.later distance earlier) (mode.later distance) =
      (enter state mode).later distance earlier := by
  simp only [enter, State.later, Nat.add_right_comm]

theorem open_later (state : State) (opener : Delimiter) :
    «open» (state.later distance earlier) opener =
      («open» state opener).later distance earlier := by
  simp only [«open», State.later, List.map_cons, Nat.add_right_comm]
  split <;> rfl

theorem close_later
    {state next : State} {closer : Delimiter}
    (taken : close state closer = .ok next) :
    close (state.later distance earlier) closer = .ok (next.later distance earlier) := by
  unfold close at taken ⊢
  cases opened : state.opened with
  | nil =>
      rw [opened] at taken
      cases taken
  | cons innermost outer =>
      rw [opened] at taken
      by_cases same : innermost.1 = closer
      · simp only [if_pos same] at taken
        cases taken
        simp only [State.later, opened, List.map_cons, if_pos same, Nat.add_right_comm]
        rfl
      · simp only [if_neg same] at taken
        cases taken

/-- The check makes the same step further on. -/
theorem step_later
    {state next : State} {c : Char}
    (taken : step state c = .ok next) :
    step (state.later distance earlier) c = .ok (next.later distance earlier) := by
  have laterMode : (state.later distance earlier).mode = state.mode.later distance := rfl
  cases mode : state.mode with
  | comment =>
      rw [mode] at laterMode
      simp only [step, mode] at taken
      cases taken
      simp only [step, laterMode, Mode.later]
      by_cases lineEnds : c = '\n'
      · simp only [if_pos lineEnds]
        exact congrArg Except.ok (enter_later state .code)
      · simp only [if_neg lineEnds]
        exact congrArg Except.ok (enter_later state .comment)
  | escape start =>
      rw [mode] at laterMode
      simp only [step, mode] at taken
      cases taken
      simp only [step, laterMode, Mode.later]
      exact congrArg Except.ok (enter_later state (.string start))
  | string start =>
      rw [mode] at laterMode
      simp only [step, mode] at taken
      simp only [step, laterMode, Mode.later]
      by_cases quotation : c = '"'
      · rw [if_pos quotation] at taken ⊢
        cases taken
        exact congrArg Except.ok (enter_later state .code)
      rw [if_neg quotation] at taken ⊢
      by_cases backslash : c = '\\'
      · rw [if_pos backslash] at taken ⊢
        cases taken
        exact congrArg Except.ok (enter_later state (.escape start))
      · rw [if_neg backslash] at taken ⊢
        cases taken
        exact congrArg Except.ok (enter_later state (.string start))
  | code =>
      rw [mode] at laterMode
      simp only [step, mode] at taken
      simp only [step, laterMode, Mode.later]
      by_cases semicolon : c = ';'
      · rw [if_pos semicolon] at taken ⊢
        cases taken
        exact congrArg Except.ok (enter_later state .comment)
      rw [if_neg semicolon] at taken ⊢
      by_cases quotation : c = '"'
      · rw [if_pos quotation] at taken ⊢
        cases taken
        exact congrArg Except.ok (enter_later state (.string state.offset))
      rw [if_neg quotation] at taken ⊢
      cases opener : Delimiter.ofOpener? c with
      | some delimiter =>
          simp only [opener] at taken ⊢
          cases taken
          exact congrArg Except.ok (open_later state delimiter)
      | none =>
          cases closer : Delimiter.ofCloser? c with
          | some delimiter =>
              simp only [opener, closer] at taken ⊢
              exact close_later taken
          | none =>
              simp only [opener, closer] at taken ⊢
              cases taken
              exact congrArg Except.ok (enter_later state .code)

theorem foldlM_later
    {state final : State} {text : List Char}
    (followed : text.foldlM step state = .ok final) :
    text.foldlM step (state.later distance earlier) = .ok (final.later distance earlier) := by
  induction text generalizing state with
  | nil =>
      cases followed
      rfl
  | cons c rest inductionHypothesis =>
      cases taken : step state c with
      | error fault => simp [List.foldlM, taken, bind, Except.bind] at followed
      | ok next =>
          simp only [List.foldlM, taken, bind, Except.bind] at followed
          simp only [List.foldlM, step_later taken, bind, Except.bind]
          exact inductionHypothesis followed

theorem faultAtEnd?_later
    {state : State}
    (atEnd : faultAtEnd? state = none) :
    faultAtEnd? (state.later distance earlier) = none := by
  obtain ⟨offset, mode, opened, parens⟩ := state
  cases mode with
  | string start | escape start => cases atEnd
  | code | comment =>
      cases opened with
      | cons innermost outer => cases atEnd
      | nil => rfl

end Later

theorem offset_of_foldlM
    {state final : State} {text : List Char}
    (followed : text.foldlM step state = .ok final) :
    final.offset = state.offset + text.length := by
  induction text generalizing state with
  | nil =>
      cases followed
      rfl
  | cons c rest inductionHypothesis =>
      cases taken : step state c with
      | error fault => simp [List.foldlM, taken, bind, Except.bind] at followed
      | ok next =>
          simp only [List.foldlM, taken, bind, Except.bind] at followed
          have onwards := inductionHypothesis followed
          have here := offset_of_step taken
          rw [List.length_cons]
          omega

/-- The end of a line ends the last comment of a text whose delimiters nest, and nothing
else is under way. -/
theorem step_newline_of_faultAtEnd?
    {state : State}
    (atEnd : faultAtEnd? state = none) :
    step state '\n' = .ok (start.later (state.offset + 1) state.parens) := by
  obtain ⟨offset, mode, opened, parens⟩ := state
  cases mode with
  | string start | escape start => cases atEnd
  | code | comment =>
      cases opened with
      | cons innermost outer => cases atEnd
      | nil => simp [step, enter, State.later, Mode.later, start, Delimiter.ofOpener?,
          Delimiter.ofCloser?, pure, Except.pure]

end Nesting

theorem final_of_checkDelimiters
    {text : List Char} {offsets : List Nat}
    (accepted : checkDelimiters text = .ok offsets) :
    ∃ final, text.foldlM Nesting.step Nesting.start = .ok final ∧
      Nesting.faultAtEnd? final = none ∧ offsets = final.parens.reverse := by
  unfold checkDelimiters at accepted
  cases followed : text.foldlM Nesting.step Nesting.start with
  | error fault => simp [followed, bind, Except.bind] at accepted
  | ok final =>
      simp only [followed, bind, Except.bind] at accepted
      cases atEnd : Nesting.faultAtEnd? final with
      | some fault =>
          rw [atEnd] at accepted
          cases accepted
      | none =>
          rw [atEnd] at accepted
          cases accepted
          exact ⟨final, rfl, atEnd, rfl⟩

/-- Where the delimiters of two texts nest, they nest with one text below the other, and
the parentheses of the second are found at their offsets in the whole. -/
theorem checkDelimiters_append_newline
    {first second : List Char} {firstOffsets secondOffsets : List Nat}
    (firstAccepted : checkDelimiters first = .ok firstOffsets)
    (secondAccepted : checkDelimiters second = .ok secondOffsets) :
    checkDelimiters (first ++ '\n' :: second) =
      .ok (firstOffsets ++ secondOffsets.map (· + (first.length + 1))) := by
  obtain ⟨middle, ranFirst, middleEnds, rfl⟩ := final_of_checkDelimiters firstAccepted
  obtain ⟨final, ranSecond, finalEnds, rfl⟩ := final_of_checkDelimiters secondAccepted
  have place : middle.offset = first.length := by
    rw [Nesting.offset_of_foldlM ranFirst]
    exact Nat.zero_add _
  have lineEnds := Nesting.step_newline_of_faultAtEnd? middleEnds
  rw [place] at lineEnds
  have ran : (first ++ '\n' :: second).foldlM Nesting.step Nesting.start =
      .ok (final.later (first.length + 1) middle.parens) := by
    rw [List.foldlM_append, ranFirst]
    change ('\n' :: second).foldlM Nesting.step middle = _
    rw [List.foldlM_cons, lineEnds]
    exact Nesting.foldlM_later ranSecond
  rw [checkDelimiters, ran]
  simp only [bind, Except.bind, Nesting.faultAtEnd?_later finalEnds]
  simp only [pure, Except.pure, Nesting.State.later, List.reverse_append, List.map_reverse]

/-! ## The reader of sequences -/

namespace Sequence

/-- A closer ends the innermost sequence if it is the one that sequence wants and no
apostrophe waits there; what is left of the text only words the faults. -/
theorem close_eq_ok_iff
    {state next : State} {closer : Delimiter} {rest : List Char} :
    close state closer rest = .ok next ↔
      ∃ items level outer, state.level.items = .ok items ∧
        state.outer = (closer, level) :: outer ∧
        next = ⟨state.offset + 1, .between, level.push (delimited closer items), outer⟩ := by
  constructor
  · intro taken
    unfold close at taken
    cases ended : state.level.items with
    | error fault =>
        rw [ended] at taken
        cases taken
    | ok items =>
        simp only [ended, bind, Except.bind] at taken
        cases around : state.outer with
        | nil =>
            rw [around] at taken
            cases taken
        | cons sequence outer =>
            rw [around] at taken
            by_cases same : sequence.1 = closer
            · simp only [if_pos same] at taken
              cases taken
              subst same
              exact ⟨items, sequence.2, outer, rfl, rfl, rfl⟩
            · simp only [if_neg same] at taken
              cases taken
  · rintro ⟨items, level, outer, ended, around, rfl⟩
    simp only [close, ended, around, bind, Except.bind, if_true]
    rfl

/-- The same sequence, `distance` characters further on and after some items. -/
def Level.later (distance : Nat) (earlier : List Value) (level : Level) : Level :=
  ⟨level.reversed ++ earlier, level.quotes.map (· + distance)⟩

theorem Level.push_later
    {distance : Nat} {earlier : List Value} (level : Level) (form : Value) :
    (level.later distance earlier).push form = (level.push form).later distance earlier := by
  simp only [Level.push, Level.later, List.foldl_map, List.map_nil, List.cons_append]

theorem Level.items_eq_ok_iff {level : Level} {items : List Value} :
    level.items = .ok items ↔ level = ⟨items.reverse, []⟩ := by
  obtain ⟨reversed, quotes⟩ := level
  cases quotes with
  | cons last waiting => simp [Level.items]
  | nil => simp [Level.items, pure, Except.pure, List.reverse_eq_iff]

theorem Level.items_later
    {distance : Nat} {earlier items : List Value} {level : Level}
    (ended : level.items = .ok items) :
    (level.later distance earlier).items = .ok (earlier.reverse ++ items) := by
  rw [Level.items_eq_ok_iff] at ended ⊢
  rw [ended, List.reverse_append, List.reverse_reverse]
  rfl

/-- Sequences under way and the same ones further on: only the outermost one has items
before it. -/
inductive LaterLevels (distance : Nat) (earlier : List Value) :
    Level → List (Delimiter × Level) → Level → List (Delimiter × Level) → Prop
  | outermost (level : Level) :
      LaterLevels distance earlier level [] (level.later distance earlier) []
  | inside {around around' : Level} {outer outer' : List (Delimiter × Level)}
      (delimiter : Delimiter) (level : Level) :
      LaterLevels distance earlier around outer around' outer' →
      LaterLevels distance earlier level ((delimiter, around) :: outer)
        (level.later distance []) ((delimiter, around') :: outer')

/-- The reader stands `distance` characters further on, after some items. -/
structure Later (distance : Nat) (earlier : List Value) (state state' : State) : Prop where
  offset : state'.offset = state.offset + distance
  mode : state'.mode = state.mode
  levels : LaterLevels distance earlier state.level state.outer state'.level state'.outer

section Later

variable {distance : Nat} {earlier : List Value}

namespace LaterLevels

theorem push
    {level level' : Level} {outer outer' : List (Delimiter × Level)}
    (later : LaterLevels distance earlier level outer level' outer') (form : Value) :
    LaterLevels distance earlier (level.push form) outer (level'.push form) outer' := by
  cases later with
  | outermost =>
      rw [Level.push_later]
      exact .outermost _
  | inside delimiter _ around =>
      rw [Level.push_later]
      exact .inside delimiter _ around

theorem quote
    {level level' : Level} {outer outer' : List (Delimiter × Level)}
    (later : LaterLevels distance earlier level outer level' outer') (offset : Nat) :
    LaterLevels distance earlier { level with quotes := offset :: level.quotes } outer
      { level' with quotes := (offset + distance) :: level'.quotes } outer' := by
  cases later with
  | outermost => exact .outermost { level with quotes := offset :: level.quotes }
  | inside delimiter _ around =>
      exact .inside delimiter { level with quotes := offset :: level.quotes } around

end LaterLevels

namespace Later

variable {state state' : State}

theorem enter
    (later : Later distance earlier state state') (mode : Mode) :
    Later distance earlier (Sequence.enter state mode) (Sequence.enter state' mode) where
  offset := by
    have place := later.offset
    simp only [Sequence.enter]
    omega
  mode := rfl
  levels := later.levels

theorem push
    (later : Later distance earlier state state') (form : Value) :
    Later distance earlier (Sequence.push state form) (Sequence.push state' form) where
  offset := later.offset
  mode := later.mode
  levels := later.levels.push form

theorem finishToken
    (later : Later distance earlier state state') :
    Later distance earlier (Sequence.finishToken state) (Sequence.finishToken state') := by
  have sameMode := later.mode
  unfold Sequence.finishToken
  cases mode : state.mode with
  | token reversed =>
      rw [mode] at sameMode
      rw [sameMode]
      exact ⟨later.offset, rfl, later.levels.push _⟩
  | between | comment | string _ | stringEscape _ | tokenEscape _ =>
      rw [mode] at sameMode
      rw [sameMode]
      exact later

theorem close
    (later : Later distance earlier state state') {next : State} {closer : Delimiter}
    {rest : List Char} (rest' : List Char)
    (taken : Sequence.close state closer rest = .ok next) :
    ∃ next', Sequence.close state' closer rest' = .ok next' ∧
      Later distance earlier next next' := by
  obtain ⟨items, level, outer, ended, around, rfl⟩ := close_eq_ok_iff.mp taken
  have place : state'.offset + 1 = state.offset + 1 + distance := by
    rw [later.offset, Nat.add_right_comm]
  have levels := later.levels
  rw [around] at levels
  generalize inner : state.level = innermost at ended levels
  generalize inner' : state'.level = innermost' at levels
  generalize around' : state'.outer = sequences' at levels
  cases levels with
  | @inside _ outerLevel' _ outer' _ _ levels =>
      have ended' : state'.level.items = .ok items := by
        rw [inner']
        exact Level.items_later ended
      exact ⟨_, close_eq_ok_iff.mpr ⟨items, outerLevel', outer', ended', around', rfl⟩, place,
        rfl, levels.push _⟩

theorem stepBetween
    (later : Later distance earlier state state') {next : State} {c : Char}
    {rest : List Char} (rest' : List Char)
    (taken : Sequence.stepBetween state c rest = .ok next) :
    ∃ next', Sequence.stepBetween state' c rest' = .ok next' ∧
      Later distance earlier next next' := by
  unfold Sequence.stepBetween at taken ⊢
  by_cases blank : Text.isAsciiBlank c = true
  · rw [if_pos blank] at taken ⊢
    cases taken
    exact ⟨_, rfl, later.enter _⟩
  rw [if_neg blank] at taken ⊢
  by_cases quotation : c = '"'
  · rw [if_pos quotation] at taken ⊢
    cases taken
    exact ⟨_, rfl, later.enter _⟩
  rw [if_neg quotation] at taken ⊢
  by_cases semicolon : c = ';'
  · rw [if_pos semicolon] at taken ⊢
    cases taken
    exact ⟨_, rfl, later.enter _⟩
  rw [if_neg semicolon] at taken ⊢
  by_cases apostrophe : c = '\''
  · rw [if_pos apostrophe] at taken ⊢
    cases taken
    have levels := later.levels.quote state.offset
    rw [← later.offset] at levels
    have waiting : Later distance earlier
        { state with level := { state.level with quotes := state.offset :: state.level.quotes } }
        { state' with
          level := { state'.level with quotes := state'.offset :: state'.level.quotes } } :=
      ⟨later.offset, later.mode, levels⟩
    exact ⟨_, rfl, waiting.enter _⟩
  rw [if_neg apostrophe] at taken ⊢
  by_cases backslash : c = '\\'
  · rw [if_pos backslash] at taken ⊢
    cases taken
    exact ⟨_, rfl, later.enter _⟩
  rw [if_neg backslash] at taken ⊢
  cases opener : Delimiter.ofOpener? c with
  | some delimiter =>
      simp only [opener] at taken ⊢
      cases taken
      have onwards : state'.offset + 1 = state.offset + 1 + distance := by
        rw [later.offset, Nat.add_right_comm]
      exact ⟨_, rfl, onwards, rfl, .inside delimiter .empty later.levels⟩
  | none =>
      cases closer : Delimiter.ofCloser? c with
      | some delimiter =>
          simp only [opener, closer] at taken ⊢
          exact later.close rest' taken
      | none =>
          simp only [opener, closer] at taken ⊢
          cases taken
          exact ⟨_, rfl, later.enter _⟩

/-- The reader makes the same step further on. -/
theorem step
    (later : Later distance earlier state state') {next : State} {c : Char}
    {rest : List Char} (rest' : List Char)
    (taken : Sequence.step state c rest = .ok next) :
    ∃ next', Sequence.step state' c rest' = .ok next' ∧
      Later distance earlier next next' := by
  have sameMode := later.mode
  cases mode : state.mode with
  | between =>
      rw [mode] at sameMode
      simp only [Sequence.step, mode] at taken
      simp only [Sequence.step, sameMode]
      exact later.stepBetween rest' taken
  | comment | stringEscape reversed | tokenEscape reversed =>
      rw [mode] at sameMode
      simp only [Sequence.step, mode] at taken
      simp only [Sequence.step, sameMode]
      cases taken
      exact ⟨_, rfl, later.enter _⟩
  | string reversed =>
      rw [mode] at sameMode
      simp only [Sequence.step, mode] at taken
      simp only [Sequence.step, sameMode]
      by_cases quotation : c = '"'
      · rw [if_pos quotation] at taken ⊢
        cases taken
        exact ⟨_, rfl, (later.push _).enter _⟩
      rw [if_neg quotation] at taken ⊢
      by_cases backslash : c = '\\'
      · rw [if_pos backslash] at taken ⊢
        cases taken
        exact ⟨_, rfl, later.enter _⟩
      · rw [if_neg backslash] at taken ⊢
        cases taken
        exact ⟨_, rfl, later.enter _⟩
  | token reversed =>
      rw [mode] at sameMode
      simp only [Sequence.step, mode] at taken
      simp only [Sequence.step, sameMode]
      by_cases ends : endsToken c = true
      · rw [if_pos ends] at taken ⊢
        exact later.finishToken.stepBetween rest' taken
      rw [if_neg ends] at taken ⊢
      by_cases backslash : c = '\\'
      · rw [if_pos backslash] at taken ⊢
        cases taken
        exact ⟨_, rfl, later.enter _⟩
      · rw [if_neg backslash] at taken ⊢
        cases taken
        exact ⟨_, rfl, later.enter _⟩

theorem run
    (later : Later distance earlier state state') {final : State} {text : List Char}
    (ran : Sequence.run state text = .ok final) :
    ∃ final', Sequence.run state' text = .ok final' ∧
      Later distance earlier final final' := by
  induction text generalizing state state' with
  | nil =>
      cases ran
      exact ⟨state', rfl, later⟩
  | cons c rest inductionHypothesis =>
      cases taken : Sequence.step state c (c :: rest) with
      | error fault =>
          rw [Sequence.run, taken] at ran
          cases ran
      | ok next =>
          rw [run_cons_ok taken] at ran
          obtain ⟨next', taken', laterNext⟩ := later.step (c :: rest) taken
          rw [run_cons_ok taken']
          exact inductionHypothesis laterNext ran

end Later

end Later

/-! ### One text after another -/

theorem step_ok_of_step_ok
    {state next : State} {c : Char} {rest : List Char} (rest' : List Char)
    (taken : step state c rest = .ok next) :
    step state c rest' = .ok next := by
  have between : ∀ middle, stepBetween middle c rest = .ok next →
      stepBetween middle c rest' = .ok next := by
    intro middle taken
    cases closer : Delimiter.ofCloser? c with
    | none =>
        cases opener : Delimiter.ofOpener? c <;>
          simp only [stepBetween, opener, closer] at taken ⊢ <;> exact taken
    | some delimiter =>
        unfold Delimiter.ofCloser? at closer
        split at closer
        · exact close_eq_ok_iff.mpr (close_eq_ok_iff.mp taken)
        · exact close_eq_ok_iff.mpr (close_eq_ok_iff.mp taken)
        · cases closer
  cases mode : state.mode with
  | between =>
      simp only [step, mode] at taken ⊢
      exact between state taken
  | token reversed =>
      simp only [step, mode] at taken ⊢
      by_cases ends : endsToken c = true
      · rw [if_pos ends] at taken ⊢
        exact between _ taken
      · rw [if_neg ends] at taken ⊢
        exact taken
  | comment | string _ | stringEscape _ | tokenEscape _ =>
      simp only [step, mode] at taken ⊢
      exact taken

theorem run_append
    {state middle : State} {first : List Char} (second : List Char)
    (ran : run state first = .ok middle) :
    run state (first ++ second) = run middle second := by
  induction first generalizing state with
  | nil =>
      cases ran
      rfl
  | cons c rest inductionHypothesis =>
      cases taken : step state c (c :: rest) with
      | error fault =>
          rw [run, taken] at ran
          cases ran
      | ok next =>
          rw [run_cons_ok taken] at ran
          rw [List.cons_append, run_cons_ok (step_ok_of_step_ok _ taken)]
          exact inductionHypothesis ran

/-! ### The end of a text -/

theorem outer_of_finish_ok
    {state : State} {forms : List Value}
    (finished : finish state = .ok forms) :
    state.outer = [] := by
  unfold finish at finished
  cases outer : state.outer with
  | nil => rfl
  | cons sequence around =>
      cases ended : (finishToken state).level.items <;> cases mode : state.mode <;>
        rw [mode, ended, outer] at finished <;> cases finished

/-- The end of a line ends the last token or comment of a text that reads, and nothing else
is under way. -/
theorem step_newline_of_finish_ok
    {state : State} {forms : List Value} (rest : List Char)
    (finished : finish state = .ok forms) :
    step state '\n' rest =
      .ok ⟨state.offset + 1, .between, ⟨forms.reverse, []⟩, []⟩ := by
  have noneOpen := outer_of_finish_ok finished
  have level : (finishToken state).level = ⟨forms.reverse, []⟩ :=
    Level.items_eq_ok_iff.mp (items_of_finish_ok finished)
  have ends : enter (finishToken state) .between =
      ⟨state.offset + 1, .between, ⟨forms.reverse, []⟩, []⟩ := by
    rw [enter, level, outer_finishToken, noneOpen, offset_finishToken]
  cases mode : state.mode with
  | string _ | stringEscape _ | tokenEscape _ =>
      unfold finish at finished
      rw [mode] at finished
      cases finished
  | between =>
      rw [Ready.step_eq (.inl mode) rest rfl, ← ends]
      rfl
  | token reversed =>
      rw [Ready.step_eq (.inr ⟨reversed, mode⟩) rest rfl, ← ends]
      rfl
  | comment =>
      have noToken : finishToken state = state := by
        unfold finishToken
        rw [mode]
      rw [noToken] at ends
      simp only [step, mode, if_true]
      exact congrArg Except.ok ends

theorem Later.finish
    {distance : Nat} {earlier forms : List Value} {state state' : State}
    (later : Later distance earlier state state')
    (finished : Sequence.finish state = .ok forms) :
    Sequence.finish state' = .ok (earlier.reverse ++ forms) := by
  have ended := items_of_finish_ok finished
  have noneOpen := outer_of_finish_ok finished
  have sameMode := later.mode
  have levels := later.finishToken.levels
  rw [outer_finishToken, outer_finishToken, noneOpen] at levels
  generalize (Sequence.finishToken state).level = level at ended levels
  generalize inner' : (Sequence.finishToken state').level = level' at levels
  generalize around' : state'.outer = outer' at levels
  cases levels with
  | outermost =>
      have ended' : (level.later distance earlier).items = .ok (earlier.reverse ++ forms) :=
        Level.items_later ended
      unfold Sequence.finish at finished ⊢
      rw [inner', ended', around', sameMode]
      cases mode : state.mode with
      | string _ | stringEscape _ | tokenEscape _ =>
          rw [mode] at finished
          cases finished
      | between | comment | token _ => rfl

end Sequence

theorem readSequence_eq_ok_iff {text : List Char} {forms : List Value} :
    readSequence text = .ok forms ↔
      ∃ final, Sequence.run Sequence.start text = .ok final ∧
        Sequence.finish final = .ok forms := by
  unfold readSequence
  cases ran : Sequence.run Sequence.start text with
  | error fault => simp [bind, Except.bind]
  | ok final => simp [bind, Except.bind]

/-- The parser takes two texts, one below the other, for the forms of both. -/
theorem readSequence_append_newline
    {first second : List Char} {firstForms secondForms : List Value}
    (firstReads : readSequence first = .ok firstForms)
    (secondReads : readSequence second = .ok secondForms) :
    readSequence (first ++ '\n' :: second) = .ok (firstForms ++ secondForms) := by
  obtain ⟨middle, ranFirst, firstEnds⟩ := readSequence_eq_ok_iff.mp firstReads
  obtain ⟨final, ranSecond, secondEnds⟩ := readSequence_eq_ok_iff.mp secondReads
  have lineEnds := Sequence.step_newline_of_finish_ok ('\n' :: second) firstEnds
  have ground : Sequence.Later (middle.offset + 1) firstForms.reverse Sequence.start
      ⟨middle.offset + 1, .between, ⟨firstForms.reverse, []⟩, []⟩ :=
    ⟨(Nat.zero_add _).symm, rfl, .outermost .empty⟩
  obtain ⟨last, ranOn, later⟩ := ground.run ranSecond
  apply readSequence_eq_ok_iff.mpr
  refine ⟨last, ?_, ?_⟩
  · rw [Sequence.run_append _ ranFirst, Sequence.run_cons_ok lineEnds, ranOn]
  · rw [later.finish secondEnds, List.reverse_reverse]

/-! ## White space -/

theorem plain_of_isBlank
    {c : Char} (blank : Text.isBlank c = true) (notAscii : Text.isAsciiBlank c = false) :
    c ≠ '"' ∧ c ≠ ';' ∧ c ≠ '\'' ∧ c ≠ '\\' ∧ Delimiter.ofOpener? c = none ∧
      Delimiter.ofCloser? c = none := by
  refine ⟨?_, ?_, ?_, ?_, ?_, ?_⟩
  · rintro rfl
    exact absurd blank (by decide)
  · rintro rfl
    exact absurd blank (by decide)
  · rintro rfl
    exact absurd blank (by decide)
  · rintro rfl
    exact absurd blank (by decide)
  · unfold Delimiter.ofOpener?
    split
    · exact absurd blank (by decide)
    · exact absurd blank (by decide)
    · rfl
  · unfold Delimiter.ofCloser?
    split
    · exact absurd blank (by decide)
    · exact absurd blank (by decide)
    · rfl

namespace Sequence

/-- For the reader white space beyond the ASCII blanks begins a token or goes on with
one. -/
theorem step_of_isBlank
    {state : State} {c : Char} (rest : List Char)
    (ready : Ready state) (blank : Text.isBlank c = true)
    (notAscii : Text.isAsciiBlank c = false) :
    ∃ reversed, step state c rest = .ok (enter state (.token reversed)) := by
  obtain ⟨notQuotation, notComment, notQuote, notEscape, opensNothing, closesNothing⟩ :=
    plain_of_isBlank blank notAscii
  rcases ready with between | ⟨reversed, token⟩
  · refine ⟨[c], ?_⟩
    simp [step, between, stepBetween, notAscii, notQuotation, notComment, notQuote, notEscape,
      opensNothing, closesNothing, pure, Except.pure]
  · refine ⟨c :: reversed, ?_⟩
    simp [step, token, endsToken, notAscii, notQuotation, notComment, notEscape, opensNothing,
      closesNothing, pure, Except.pure]

/-- White space adds forms to the sequence it stands in exactly where it holds more than
the ASCII blanks. -/
theorem run_of_isBlank
    {state : State} {text : List Char}
    (ready : Ready state) (noQuotes : state.level.quotes = [])
    (blank : ∀ c ∈ text, Text.isBlank c = true) :
    ∃ final, run state text = .ok final ∧ Ready final ∧ final.level.quotes = [] ∧
      final.outer = state.outer ∧
      ((finishToken final).level.reversed = [] ↔
        (finishToken state).level.reversed = [] ∧
          ∀ c ∈ text, Text.isAsciiBlank c = true) := by
  induction text generalizing state with
  | nil => exact ⟨state, rfl, ready, noQuotes, rfl, by simp⟩
  | cons c rest inductionHypothesis =>
      have blankRest : ∀ d ∈ rest, Text.isBlank d = true := fun d member =>
        blank d (List.mem_cons_of_mem c member)
      cases ascii : Text.isAsciiBlank c with
      | true =>
          have ends : endsToken c = true := by simp [endsToken, ascii]
          have taken : step state c (c :: rest) = .ok (enter (finishToken state) .between) := by
            rw [ready.step_eq _ ends, stepBetween, if_pos ascii]
            rfl
          have noQuotesNext : (enter (finishToken state) .between).level.quotes = [] := by
            rcases ready with between | ⟨reversed, token⟩
            · rw [finishToken_of_between between]
              exact noQuotes
            · simp only [finishToken, token]
              rfl
          obtain ⟨final, ran, readyFinal, noQuotesFinal, outer, empty⟩ :=
            inductionHypothesis (.inl rfl) noQuotesNext blankRest
          have around := outer.trans (outer_finishToken state)
          refine ⟨final, ?_, readyFinal, noQuotesFinal, around, ?_⟩
          · rw [run_cons_ok taken, ran]
          · rw [empty, List.forall_mem_cons]
            simp only [ascii, true_and]
            rfl
      | false =>
          obtain ⟨reversed, taken⟩ :=
            step_of_isBlank (c :: rest) ready (blank c List.mem_cons_self) ascii
          have begun : Ready (enter state (.token reversed)) := .inr ⟨reversed, rfl⟩
          obtain ⟨final, ran, readyFinal, noQuotesFinal, outer, empty⟩ :=
            inductionHypothesis begun noQuotes blankRest
          refine ⟨final, ?_, readyFinal, noQuotesFinal, outer, ?_⟩
          · rw [run_cons_ok taken, ran]
          · rw [empty, List.forall_mem_cons]
            simp [ascii, finishToken, enter, push, Level.push]

end Sequence

/-- Blank for `read`, while the parser finds symbols in it. -/
def OddlyBlank (text : List Char) : Prop :=
  Text.strip text = [] ∧ ∃ c ∈ text, Text.isAsciiBlank c = false

/-- The parser reads all white space, and takes it for blank where only ASCII blanks are
in it. -/
theorem readSequence_of_strip
    {text : List Char} (blank : Text.strip text = []) :
    ∃ forms, readSequence text = .ok forms ∧ (forms = [] ↔ ¬ OddlyBlank text) := by
  have ground : Sequence.Ready Sequence.start := .inl rfl
  obtain ⟨final, ran, ready, noQuotes, outer, empty⟩ :=
    Sequence.run_of_isBlank ground rfl (strip_eq_nil_iff.mp blank)
  have level : (Sequence.finishToken final).level.items =
      .ok (Sequence.finishToken final).level.reversed.reverse := by
    have noQuotesEnd : (Sequence.finishToken final).level.quotes = [] := by
      rcases ready with between | ⟨reversed, token⟩
      · rw [Sequence.finishToken_of_between between, noQuotes]
      · simp only [Sequence.finishToken, token]
        rfl
    rw [Sequence.Level.items, noQuotesEnd]
    rfl
  refine ⟨(Sequence.finishToken final).level.reversed.reverse, ?_, ?_⟩
  · apply readSequence_eq_ok_iff.mpr
    refine ⟨final, ran, ?_⟩
    unfold Sequence.finish
    rw [level, outer]
    rcases ready with between | ⟨reversed, token⟩
    · rw [between]
      rfl
    · rw [token]
      rfl
  · rw [List.reverse_eq_nil_iff, empty]
    simp [OddlyBlank, blank, Sequence.finishToken, Sequence.start, Sequence.Level.empty]

/-! ## Reading -/

/-- A text that reads passes the check and the parser; only where it is oddly blank do its
forms not come from the parser. -/
theorem parsed_of_read
    {text : List Char} {forms : List Value}
    (reads : read text = .ok forms) :
    ∃ offsets parsed, checkDelimiters text = .ok offsets ∧ readSequence text = .ok parsed ∧
      (parsed = forms ↔ ¬ OddlyBlank text) ∧ (Text.strip text = [] → forms = []) := by
  unfold read at reads
  cases checked : checkDelimiters text with
  | error fault =>
      rw [checked] at reads
      cases reads
  | ok offsets =>
      rw [checked] at reads
      simp only [bind, Except.bind, Except.mapError, List.isEmpty_iff] at reads
      by_cases blank : Text.strip text = []
      · rw [if_pos blank] at reads
        cases reads
        obtain ⟨parsed, reads, odd⟩ := readSequence_of_strip blank
        exact ⟨offsets, parsed, rfl, reads, odd, fun _ => rfl⟩
      · rw [if_neg blank] at reads
        cases sequence : readSequence text with
        | error fault =>
            rw [sequence] at reads
            cases reads
        | ok parsed =>
            rw [sequence] at reads
            cases reads
            exact ⟨offsets, forms, rfl, rfl, by simp [OddlyBlank, blank],
              fun blank' => absurd blank' blank⟩

theorem read_of_parsed
    {text : List Char} {offsets : List Nat} {parsed : List Value}
    (accepted : checkDelimiters text = .ok offsets)
    (reads : readSequence text = .ok parsed) :
    read text = .ok (if Text.strip text = [] then [] else parsed) := by
  rw [read, accepted]
  simp only [bind, Except.bind, Except.mapError, List.isEmpty_iff, reads]
  split <;> rfl

theorem strip_append_newline {first second : List Char} :
    Text.strip (first ++ '\n' :: second) = [] ↔
      Text.strip first = [] ∧ Text.strip second = [] := by
  simp only [strip_eq_nil_iff, List.forall_mem_append, List.forall_mem_cons]
  constructor
  · rintro ⟨firstBlank, -, secondBlank⟩
    exact ⟨firstBlank, secondBlank⟩
  · rintro ⟨firstBlank, secondBlank⟩
    exact ⟨firstBlank, rfl, secondBlank⟩

/-- Two texts that read also read one below the other.  The forms are those of the first
and then those of the second, unless one text is oddly blank and the other is not blank;
and a text that is oddly blank is just one that the parser by itself would read
differently. -/
theorem read_append_newline
    {first second : List Char} {firstForms secondForms : List Value}
    (firstReads : read first = .ok firstForms)
    (secondReads : read second = .ok secondForms) :
    (∃ forms, read (first ++ '\n' :: second) = .ok forms ∧
      (forms = firstForms ++ secondForms ↔
        (OddlyBlank first → Text.strip second = []) ∧
          (OddlyBlank second → Text.strip first = []))) ∧
      (readSequence first = .ok firstForms ↔ ¬ OddlyBlank first) := by
  obtain ⟨firstOffsets, firstParsed, firstAccepted, firstSequence, firstSame, firstBlank⟩ :=
    parsed_of_read firstReads
  obtain ⟨secondOffsets, secondParsed, secondAccepted, secondSequence, secondSame,
    secondBlank⟩ := parsed_of_read secondReads
  have reads := read_of_parsed
    (checkDelimiters_append_newline firstAccepted secondAccepted)
    (readSequence_append_newline firstSequence secondSequence)
  refine ⟨⟨_, reads, ?_⟩, ?_⟩
  · simp only [strip_append_newline]
    by_cases firstOdd : OddlyBlank first
    · obtain rfl : firstForms = [] := firstBlank firstOdd.1
      by_cases blank : Text.strip second = []
      · rw [if_pos ⟨firstOdd.1, blank⟩, secondBlank blank]
        exact iff_of_true rfl ⟨fun _ => blank, fun _ => firstOdd.1⟩
      · have secondEven : ¬ OddlyBlank second := fun odd => blank odd.1
        have found : firstParsed ≠ [] := fun none => firstSame.mp none firstOdd
        rw [if_neg fun both => blank both.2, secondSame.mpr secondEven, List.append_left_inj]
        exact iff_of_false found fun both => blank (both.1 firstOdd)
    by_cases secondOdd : OddlyBlank second
    · obtain rfl : secondForms = [] := secondBlank secondOdd.1
      by_cases blank : Text.strip first = []
      · rw [if_pos ⟨blank, secondOdd.1⟩, firstBlank blank]
        exact iff_of_true rfl ⟨fun _ => secondOdd.1, fun _ => blank⟩
      · have found : secondParsed ≠ [] := fun none => secondSame.mp none secondOdd
        rw [if_neg fun both => blank both.1, firstSame.mpr firstOdd, List.append_right_inj]
        exact iff_of_false found fun both => blank (both.2 secondOdd)
    · rw [firstSame.mpr firstOdd, secondSame.mpr secondOdd]
      refine iff_of_true ?_ ⟨fun odd => absurd odd firstOdd, fun odd => absurd odd secondOdd⟩
      split
      · rename_i blank
        rw [firstBlank blank.1, secondBlank blank.2]
        rfl
      · rfl
  · rw [firstSequence, Except.ok.injEq]
    exact firstSame

/-- A text that ends in a comment with a delimiter in it. -/
def commentedText : List Char := "(a \\? 'b) ; (".toList

/-- A text that begins with a blank and ends in a token. -/
def tokenText : List Char := " \"x\\\"\" 7".toList

theorem read_append_newline_commentedText :
    (read commentedText = .ok [.list [.symbol "a", .symbol "?", .quoted (.symbol "b")] 0] ∧
      read tokenText = .ok [.str "x\"", .int 7]) ∧
      read (commentedText ++ '\n' :: tokenText) =
        .ok [.list [.symbol "a", .symbol "?", .quoted (.symbol "b")] 0, .str "x\"", .int 7] ∧
      (readSequence commentedText =
        .ok [.list [.symbol "a", .symbol "?", .quoted (.symbol "b")] 0]) := by
  have firstReads : read commentedText =
      .ok [.list [.symbol "a", .symbol "?", .quoted (.symbol "b")] 0] := rfl
  have secondReads : read tokenText = .ok [.str "x\"", .int 7] := rfl
  have firstVisible : ¬ OddlyBlank commentedText := fun odd => absurd odd.1 (by decide)
  have secondVisible : ¬ OddlyBlank tokenText := fun odd => absurd odd.1 (by decide)
  obtain ⟨⟨forms, reads, same⟩, parses⟩ := read_append_newline firstReads secondReads
  have joined := same.mpr
    ⟨fun odd => absurd odd firstVisible, fun odd => absurd odd secondVisible⟩
  rw [joined] at reads
  exact ⟨⟨firstReads, secondReads⟩, reads, parses.mpr firstVisible⟩

/-- A no-break space is blank by itself and a symbol for the parser, which finds it above a
number. -/
theorem read_append_newline_noBreakSpace :
    (read ['\u00a0'] = .ok [] ∧ readSequence ['\u00a0'] = .ok [.symbol "\u00a0"]) ∧
      read ['1'] = .ok [.int 1] ∧
      read (['\u00a0'] ++ '\n' :: ['1']) ≠ .ok ([] ++ [.int 1]) := by
  have joined : read (['\u00a0'] ++ '\n' :: ['1']) = .ok [.symbol "\u00a0", .int 1] := rfl
  refine ⟨⟨rfl, rfl⟩, rfl, ?_⟩
  rw [joined]
  intro same
  cases same

end CueScript
