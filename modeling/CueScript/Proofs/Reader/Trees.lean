import CueScript.Reader

/-!
# Trees that are read

What is read is made of tokens and strings by delimiters and apostrophes, and of nothing
else.  So what holds of tokens and strings and is kept by delimiters and apostrophes
holds of all forms of a text.

In particular the forms of a text are trees: they hold no functions, stores or other
values that only evaluation makes.
-/

namespace CueScript

namespace Sequence

/-- Whether all forms read so far are of some kind, in the innermost sequence and in those
around it. -/
structure Made (kind : Value → Prop) (state : State) : Prop where
  level : ∀ form ∈ state.level.reversed, kind form
  outer : ∀ entry ∈ state.outer, ∀ form ∈ entry.2.reversed, kind form

/-- A kind of values that tokens and strings are of and that delimiters and apostrophes
keep. -/
structure MadeByReading (kind : Value → Prop) : Prop where
  token : ∀ token, kind (tokenValue token)
  string : ∀ text, kind (.str text)
  quoted : ∀ form, kind form → kind (.quoted form)
  delimited : ∀ delimiter items, (∀ item ∈ items, kind item) →
    kind (delimited delimiter items)

namespace Made

variable {kind : Value → Prop} {state : State}

theorem push
    (made : MadeByReading kind) {level : Level} {form : Value}
    (levelMade : ∀ item ∈ level.reversed, kind item) (fits : kind form) :
    ∀ item ∈ (level.push form).reversed, kind item := by
  have quotedFits : kind (level.quotes.foldl (fun inner _ => Value.quoted inner) form) := by
    generalize level.quotes = quotes
    induction quotes generalizing form with
    | nil => exact fits
    | cons offset rest inductionHypothesis =>
        exact inductionHypothesis (made.quoted form fits)
  intro item member
  rcases List.mem_cons.mp member with rfl | member
  · exact quotedFits
  · exact levelMade item member

theorem finishToken
    (made : MadeByReading kind) (stateMade : Made kind state) :
    Made kind (finishToken state) := by
  unfold Sequence.finishToken
  split
  · exact ⟨push made stateMade.level (made.token _), stateMade.outer⟩
  · exact stateMade

theorem items
    {level : Level} {items : List Value}
    (levelMade : ∀ item ∈ level.reversed, kind item)
    (ended : level.items = .ok items) :
    ∀ item ∈ items, kind item := by
  unfold Level.items at ended
  split at ended
  · cases ended
  · cases ended
    exact fun item member => levelMade item (List.mem_reverse.mp member)

theorem close
    (made : MadeByReading kind) (stateMade : Made kind state)
    {next : State} {closer : Delimiter} {rest : List Char}
    (closed : close state closer rest = .ok next) :
    Made kind next := by
  unfold Sequence.close at closed
  cases ended : state.level.items with
  | error fault =>
      rw [ended] at closed
      cases closed
  | ok found =>
      have foundFit := items stateMade.level ended
      rw [ended] at closed
      cases around : state.outer with
      | nil =>
          simp only [around] at closed
          cases closed
      | cons entry outer =>
          obtain ⟨opener, level⟩ := entry
          have outerMade := stateMade.outer
          rw [around] at outerMade
          by_cases same : opener = closer
          · simp only [around, if_pos same, bind, Except.bind] at closed
            cases closed
            have levelMade := outerMade (opener, level) List.mem_cons_self
            refine ⟨push made levelMade (made.delimited opener found foundFit), ?_⟩
            exact fun entry member => outerMade entry (List.mem_cons_of_mem _ member)
          · simp only [around, if_neg same, bind, Except.bind] at closed
            cases closed

theorem stepBetween
    (made : MadeByReading kind) (stateMade : Made kind state)
    {next : State} {c : Char} {rest : List Char}
    (taken : stepBetween state c rest = .ok next) :
    Made kind next := by
  unfold Sequence.stepBetween at taken
  split at taken
  · cases taken
    exact ⟨stateMade.level, stateMade.outer⟩
  split at taken
  · cases taken
    exact ⟨stateMade.level, stateMade.outer⟩
  split at taken
  · cases taken
    exact ⟨stateMade.level, stateMade.outer⟩
  split at taken
  · cases taken
    exact ⟨stateMade.level, stateMade.outer⟩
  split at taken
  · cases taken
    exact ⟨stateMade.level, stateMade.outer⟩
  split at taken
  · cases taken
    have none : ∀ form ∈ Level.empty.reversed, kind form := fun _ member => nomatch member
    refine ⟨none, fun entry member => ?_⟩
    rcases List.mem_cons.mp member with rfl | member
    · exact stateMade.level
    · exact stateMade.outer entry member
  · exact close made stateMade taken
  · cases taken
    exact ⟨stateMade.level, stateMade.outer⟩

theorem step
    (made : MadeByReading kind) (stateMade : Made kind state)
    {next : State} {c : Char} {rest : List Char}
    (taken : step state c rest = .ok next) :
    Made kind next := by
  unfold Sequence.step at taken
  split at taken
  · exact stepBetween made stateMade taken
  · cases taken
    exact ⟨stateMade.level, stateMade.outer⟩
  · split at taken
    · cases taken
      exact ⟨push made stateMade.level (made.string _), stateMade.outer⟩
    · split at taken <;> cases taken <;> exact ⟨stateMade.level, stateMade.outer⟩
  · cases taken
    exact ⟨stateMade.level, stateMade.outer⟩
  · split at taken
    · exact stepBetween made (finishToken made stateMade) taken
    · split at taken <;> cases taken <;> exact ⟨stateMade.level, stateMade.outer⟩
  · cases taken
    exact ⟨stateMade.level, stateMade.outer⟩

theorem run
    (made : MadeByReading kind) {text : List Char} {final : State}
    (stateMade : Made kind state)
    (ran : run state text = .ok final) :
    Made kind final := by
  induction text generalizing state with
  | nil =>
      cases ran
      exact stateMade
  | cons c rest inductionHypothesis =>
      rw [Sequence.run] at ran
      cases taken : Sequence.step state c (c :: rest) with
      | error fault =>
          rw [taken] at ran
          cases ran
      | ok next =>
          rw [taken] at ran
          exact inductionHypothesis (step made stateMade taken) ran

end Made

/-- The forms of a text that ends well are those of its outermost sequence. -/
theorem items_of_finish_ok
    {state : State} {forms : List Value}
    (finished : finish state = .ok forms) :
    (finishToken state).level.items = .ok forms := by
  unfold finish at finished
  cases ended : (finishToken state).level.items with
  | error fault =>
      cases mode : state.mode <;> rw [mode, ended] at finished <;> cases finished
  | ok items =>
      cases mode : state.mode with
      | string _ | stringEscape _ | tokenEscape _ =>
          rw [mode] at finished
          cases finished
      | between | comment | token _ =>
          cases outer : state.outer <;> rw [mode, ended, outer] at finished <;> cases finished
          rfl

end Sequence

/-- All forms of a text are of a kind that reading makes. -/
theorem kind_of_readSequence
    {kind : Value → Prop} {text : List Char} {forms : List Value}
    (made : Sequence.MadeByReading kind)
    (reads : readSequence text = .ok forms) :
    ∀ form ∈ forms, kind form := by
  unfold readSequence at reads
  cases ran : Sequence.run Sequence.start text with
  | error fault =>
      rw [ran] at reads
      cases reads
  | ok final =>
      rw [ran] at reads
      have noForms : ∀ form ∈ Sequence.start.level.reversed, kind form := fun _ member =>
        nomatch member
      have noOuter : ∀ entry ∈ Sequence.start.outer, ∀ form ∈ entry.2.reversed, kind form :=
        fun _ member => nomatch member
      have finalMade :=
        Sequence.Made.finishToken made (Sequence.Made.run made ⟨noForms, noOuter⟩ ran)
      exact Sequence.Made.items finalMade.level (Sequence.items_of_finish_ok reads)

/-- The forms of a text are of every kind that reading makes. -/
theorem kind_of_read
    {kind : Value → Prop} {text : List Char} {forms : List Value}
    (made : Sequence.MadeByReading kind)
    (reads : read text = .ok forms) :
    ∀ form ∈ forms, kind form := by
  unfold read at reads
  cases checked : (checkDelimiters text).mapError ReadFault.delimiters with
  | error fault =>
      rw [checked] at reads
      cases reads
  | ok offsets =>
      rw [checked] at reads
      simp only [bind, Except.bind] at reads
      split at reads
      · cases reads
        exact fun _ member => nomatch member
      · cases sequence : readSequence text with
        | error fault =>
            rw [sequence] at reads
            cases reads
        | ok found =>
            rw [sequence] at reads
            cases reads
            exact kind_of_readSequence made sequence

/-! ## Trees -/

namespace Value

mutual

/-- Whether a value is a tree as it is read: its leaves are symbols, numbers and strings,
and its lists have no numbers yet. -/
def IsTree : Value → Prop
  | .symbol _ => True
  | .int _ => True
  | .float _ birth => birth = 0
  | .str _ => True
  | .list items birth => birth = 0 ∧ AllTrees items
  | .vector items birth => birth = 0 ∧ AllTrees items
  | .quoted form => IsTree form
  | _ => False

/-- The same for the items of a list. -/
def AllTrees : List Value → Prop
  | [] => True
  | item :: rest => IsTree item ∧ AllTrees rest

end

mutual

/-- Whether a value is a tree can be decided. -/
def decideTree : (tree : Value) → Decidable (IsTree tree)
  | .symbol _ | .int _ | .str _ => .isTrue trivial
  | .float _ birth => inferInstanceAs (Decidable (birth = 0))
  | .list items birth | .vector items birth =>
      have := decideTrees items
      inferInstanceAs (Decidable (birth = 0 ∧ AllTrees items))
  | .quoted form => decideTree form
  | .nil | .bool _ | .keyword _ | .tuple _ | .map .. | .closure .. | .builtin _
  | .instanceTest .. | .store _ | .event .. | .kind _ | .constant _ | .unset _ | .method ..
  | .member .. | .scope _ | .evaluator _ | .settings _ => .isFalse id

/-- The same for the items of a list. -/
def decideTrees : (trees : List Value) → Decidable (AllTrees trees)
  | [] => .isTrue trivial
  | tree :: rest =>
      have := decideTree tree
      have := decideTrees rest
      inferInstanceAs (Decidable (IsTree tree ∧ AllTrees rest))

end

instance : DecidablePred IsTree := decideTree

theorem allTrees_iff {items : List Value} :
    AllTrees items ↔ ∀ item ∈ items, IsTree item := by
  induction items with
  | nil => simp [AllTrees]
  | cons item rest inductionHypothesis => simp [AllTrees, inductionHypothesis]

theorem madeByReading_isTree : Sequence.MadeByReading IsTree where
  token token := by
    unfold tokenValue
    split
    · exact trivial
    · split
      · exact rfl
      · exact trivial
  string _ := trivial
  quoted _ isTree := isTree
  delimited delimiter items areTrees := by
    cases delimiter with
    | paren => exact ⟨rfl, allTrees_iff.mpr areTrees⟩
    | bracket => exact ⟨rfl, allTrees_iff.mpr areTrees⟩

end Value

/-- The forms of a text are trees. -/
theorem allTrees_of_read
    {text : List Char} {forms : List Value}
    (reads : read text = .ok forms) :
    Value.AllTrees forms :=
  Value.allTrees_iff.mpr (kind_of_read Value.madeByReading_isTree reads)

end CueScript
