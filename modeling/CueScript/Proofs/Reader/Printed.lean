import CueScript.Proofs.Number.IntegerText
import CueScript.Proofs.Reader.Openings
import CueScript.Value.Render
import Mathlib.Data.List.Forall2
import Mathlib.Data.List.TakeWhile

/-!
# Reading what was printed

The printer and the reader know nothing of each other, and a printed text passes two
scanners: the nesting check, which looks at characters, and the reader of sequences.

`Nesting.Passes` and `Sequence.Reads` say what each scanner does with a piece of text in
the middle of any other.  Pieces are put together by the printer's own means: a token, a
string, an apostrophe, a delimiter with its closer, and one space between two items.  An
induction over the tree then gives that a printed tree is read back as it was.
-/

namespace CueScript

/-! ## The nesting check -/

namespace Nesting

/-- A text that the nesting check takes as code and leaves with as many open delimiters as
before. -/
def Passes (text : List Char) : Prop :=
  ∀ state : State, state.mode = .code →
    ∃ next, text.foldlM step state = .ok next ∧ next.mode = .code ∧
      next.opened = state.opened

theorem step_plain
    {state : State} {c : Char}
    (code : state.mode = .code) (plain : Sequence.endsToken c = false) :
    step state c = .ok (enter state .code) := by
  simp only [Sequence.endsToken, Bool.or_eq_false_iff, beq_eq_false_iff_ne, ne_eq,
    Option.isSome_eq_false_iff, Option.isNone_iff_eq_none] at plain
  obtain ⟨⟨⟨⟨-, notQuote⟩, notComment⟩, opensNothing⟩, closesNothing⟩ := plain
  simp only [step, code, if_neg notComment, if_neg notQuote, opensNothing, closesNothing]
  rfl

namespace Passes

theorem nil : Passes [] := fun state code => ⟨state, rfl, code, rfl⟩

theorem append
    {first second : List Char}
    (firstPasses : Passes first) (secondPasses : Passes second) :
    Passes (first ++ second) := by
  intro state code
  obtain ⟨middle, ranFirst, middleCode, middleOpened⟩ := firstPasses state code
  obtain ⟨next, ranSecond, nextCode, nextOpened⟩ := secondPasses middle middleCode
  refine ⟨next, ?_, nextCode, nextOpened.trans middleOpened⟩
  rw [List.foldlM_append, ranFirst]
  exact ranSecond

theorem cons
    {c : Char} {text : List Char}
    (keeps : ∀ state : State, state.mode = .code → step state c = .ok (enter state .code))
    (passes : Passes text) :
    Passes (c :: text) := by
  intro state code
  obtain ⟨next, ran, nextCode, nextOpened⟩ := passes (enter state .code) rfl
  refine ⟨next, ?_, nextCode, nextOpened⟩
  rw [List.foldlM_cons, keeps state code]
  exact ran

theorem token
    {text : List Char}
    (plain : ∀ c ∈ text, Sequence.endsToken c = false) :
    Passes text := by
  induction text with
  | nil => exact nil
  | cons c rest inductionHypothesis =>
      have firstPlain := plain c List.mem_cons_self
      have restPlain : ∀ d ∈ rest, Sequence.endsToken d = false := fun d member =>
        plain d (List.mem_cons_of_mem c member)
      exact cons (fun state code => step_plain code firstPlain)
        (inductionHypothesis restPlain)

theorem spaced
    {first second : List Char}
    (firstPasses : Passes first) (secondPasses : Passes second) :
    Passes (first ++ ' ' :: second) := by
  have blank : ∀ state : State, state.mode = .code →
      step state ' ' = .ok (enter state .code) := by
    intro state code
    simp only [step, code]
    rfl
  exact firstPasses.append (cons blank secondPasses)

theorem apostrophe
    {text : List Char}
    (passes : Passes text) :
    Passes ('\'' :: text) :=
  cons (fun _ code => step_plain code rfl) passes

/-- What is printed between two delimiters comes with the delimiters. -/
theorem delimited
    (delimiter : Delimiter) {text : List Char}
    (passes : Passes text) :
    Passes (delimiter.opener :: (text ++ [delimiter.closer])) := by
  intro state code
  have opens : step state delimiter.opener = .ok («open» state delimiter) := by
    cases delimiter <;> simp only [step, code] <;> rfl
  obtain ⟨inner, ran, innerCode, innerOpened⟩ := passes («open» state delimiter) code
  have closes : step inner delimiter.closer =
      .ok { inner with offset := inner.offset + 1, opened := state.opened } := by
    have innermost : inner.opened = (delimiter, state.offset) :: state.opened := innerOpened
    cases delimiter <;> simp [step, innerCode, Delimiter.closer, Delimiter.ofOpener?,
      Delimiter.ofCloser?, close, innermost, pure, Except.pure]
  refine ⟨{ inner with offset := inner.offset + 1, opened := state.opened }, ?_, innerCode,
    rfl⟩
  rw [List.foldlM_cons, opens]
  change (text ++ [delimiter.closer]).foldlM step («open» state delimiter) = _
  rw [List.foldlM_append, ran]
  change [delimiter.closer].foldlM step inner = _
  rw [List.foldlM_cons, closes]
  rfl

end Passes

end Nesting

/-! ## Strings -/

namespace Value

/-- The characters of a string between its quotes, as they are printed. -/
def escapedChars (text : List Char) : List Char :=
  text.flatMap fun c => if c = '\\' ∨ c = '"' then ['\\', c] else [c]

theorem sourceString_toList (text : String) :
    (sourceString text).toList = '"' :: (escapedChars text.toList ++ ['"']) := by
  simp only [sourceString, escapedChars, String.toList_ofList]

end Value

open Value (escapedChars)

namespace Nesting

/-- The check comes to the end of a printed string, however many backslashes are in it. -/
theorem foldlM_escapedChars
    (text : List Char) (state : State) {start : Nat}
    (inside : state.mode = .string start) :
    ∃ next, (escapedChars text).foldlM step state = .ok next ∧
      next.mode = .string start ∧ next.opened = state.opened := by
  induction text generalizing state with
  | nil => exact ⟨state, rfl, inside, rfl⟩
  | cons c rest inductionHypothesis =>
      by_cases escaped : c = '\\' ∨ c = '"'
      · obtain ⟨next, ran, nextMode, nextOpened⟩ :=
          inductionHypothesis (enter (enter state (.escape start)) (.string start)) rfl
        refine ⟨next, ?_, nextMode, nextOpened⟩
        have toEscape : step state '\\' = .ok (enter state (.escape start)) := by
          simp only [step, inside]
          rfl
        simp only [escapedChars, List.flatMap_cons, if_pos escaped, List.cons_append,
          List.nil_append, List.foldlM_cons, toEscape]
        exact ran
      · obtain ⟨next, ran, nextMode, nextOpened⟩ :=
          inductionHypothesis (enter state (.string start)) rfl
        refine ⟨next, ?_, nextMode, nextOpened⟩
        rw [not_or] at escaped
        have stays : step state c = .ok (enter state (.string start)) := by
          simp only [step, inside, if_neg escaped.1, if_neg escaped.2]
          rfl
        simp only [escapedChars, List.flatMap_cons, escaped.1, escaped.2, or_self, if_false,
          List.cons_append, List.nil_append, List.foldlM_cons, stays]
        exact ran

theorem Passes.string (text : List Char) :
    Passes ('"' :: (escapedChars text ++ ['"'])) := by
  intro state code
  have opens : step state '"' = .ok (enter state (.string state.offset)) := by
    simp only [step, code]
    rfl
  obtain ⟨inner, ran, innerMode, innerOpened⟩ :=
    foldlM_escapedChars text (enter state (.string state.offset)) rfl
  refine ⟨enter inner .code, ?_, rfl, innerOpened⟩
  rw [List.foldlM_cons, opens]
  change (escapedChars text ++ ['"']).foldlM step (enter state (.string state.offset)) = _
  rw [List.foldlM_append, ran]
  change [('"' : Char)].foldlM step inner = _
  simp only [List.foldlM_cons, step, innerMode]
  rfl

end Nesting

/-! ## The reader of sequences -/

namespace Sequence

/-- A state in which the last item has ended or ends with the next character. -/
def Ready (state : State) : Prop :=
  state.mode = .between ∨ ∃ reversed, state.mode = .token reversed

/-- A text that adds some forms to the sequence it stands in, whatever follows it.  The last
token may end only with the next character. -/
def Reads (text : List Char) (forms : List Value) : Prop :=
  ∀ state : State, state.mode = .between →
    ∃ next, (∀ rest, run state (text ++ rest) = run next rest) ∧ Ready next ∧
      (finishToken next).level = forms.foldl Level.push state.level ∧
      next.outer = state.outer

theorem finishToken_of_between
    {state : State} (between : state.mode = .between) :
    finishToken state = state := by
  unfold finishToken
  rw [between]

theorem run_cons_ok
    {state next : State} {c : Char} {rest : List Char}
    (taken : step state c (c :: rest) = .ok next) :
    run state (c :: rest) = run next rest := by
  rw [run, taken]
  rfl

/-- A character that ends tokens ends the last one. -/
theorem Ready.step_eq
    {state : State} (ready : Ready state) {c : Char} (rest : List Char)
    (ends : endsToken c = true) :
    step state c rest = stepBetween (finishToken state) c rest := by
  rcases ready with between | ⟨reversed, token⟩
  · rw [finishToken_of_between between, step, between]
  · rw [step, token]
    exact if_pos ends

theorem foldl_push (forms reversed : List Value) :
    forms.foldl Level.push ⟨reversed, []⟩ = ⟨forms.reverse ++ reversed, []⟩ := by
  induction forms generalizing reversed with
  | nil => rfl
  | cons form rest inductionHypothesis =>
      rw [List.foldl_cons, Level.push, List.foldl_nil, inductionHypothesis,
        List.reverse_cons, List.append_assoc]
      rfl

namespace Reads

theorem nil : Reads [] [] := fun state between =>
  ⟨state, fun _ => rfl, .inl between,
    congrArg State.level (finishToken_of_between between), rfl⟩

/-- One space between two texts leaves the forms of each as they are. -/
theorem spaced
    {first second : List Char} {firstForms secondForms : List Value}
    (readsFirst : Reads first firstForms) (readsSecond : Reads second secondForms) :
    Reads (first ++ ' ' :: second) (firstForms ++ secondForms) := by
  intro state between
  obtain ⟨middle, ranFirst, ready, middleLevel, middleOuter⟩ := readsFirst state between
  obtain ⟨next, ranSecond, nextReady, nextLevel, nextOuter⟩ :=
    readsSecond (enter (finishToken middle) .between) rfl
  refine ⟨next, ?_, nextReady, ?_, ?_⟩
  · intro rest
    have blank : step middle ' ' (' ' :: (second ++ rest)) =
        .ok (enter (finishToken middle) .between) := ready.step_eq _ rfl
    rw [List.append_assoc, ranFirst, List.cons_append, run_cons_ok blank, ranSecond]
  · have level : (enter (finishToken middle) .between).level =
        firstForms.foldl Level.push state.level := middleLevel
    rw [nextLevel, level, List.foldl_append]
  · rw [nextOuter]
    exact (outer_finishToken middle).trans middleOuter

/-- An apostrophe quotes the first form after it. -/
theorem apostrophe
    {text : List Char} {form : Value}
    (reads : Reads text [form]) :
    Reads ('\'' :: text) [.quoted form] := by
  intro state between
  let waiting : Level := { state.level with quotes := state.offset :: state.level.quotes }
  obtain ⟨next, ran, ready, level, outer⟩ :=
    reads (enter { state with level := waiting } .between) rfl
  refine ⟨next, ?_, ready, level, outer⟩
  intro rest
  have taken : step state '\'' ('\'' :: (text ++ rest)) =
      .ok (enter { state with level := waiting } .between) := by
    rw [step, between]
    rfl
  rw [List.cons_append, run_cons_ok taken, ran]

/-- What stands between a delimiter and its closer becomes one form. -/
theorem delimited
    (delimiter : Delimiter) {text : List Char} {forms : List Value}
    (reads : Reads text forms) :
    Reads (delimiter.opener :: (text ++ [delimiter.closer]))
      [Sequence.delimited delimiter forms] := by
  intro state between
  let opened : State :=
    ⟨state.offset + 1, .between, .empty, (delimiter, state.level) :: state.outer⟩
  obtain ⟨inner, ran, ready, innerLevel, innerOuter⟩ := reads opened rfl
  let next : State :=
    ⟨(finishToken inner).offset + 1, .between,
      state.level.push (Sequence.delimited delimiter forms), state.outer⟩
  refine ⟨next, ?_, .inl rfl, rfl, rfl⟩
  intro rest
  have opens : step state delimiter.opener
      (delimiter.opener :: (text ++ delimiter.closer :: rest)) = .ok opened := by
    rw [step, between]
    cases delimiter <;> rfl
  have items : (finishToken inner).level.items = .ok forms := by
    rw [innerLevel]
    change (forms.foldl Level.push ⟨[], []⟩).items = _
    rw [foldl_push, List.append_nil, Level.items, List.reverse_reverse]
    rfl
  have around : (finishToken inner).outer = (delimiter, state.level) :: state.outer :=
    (outer_finishToken inner).trans innerOuter
  have closed : ∀ left, close (finishToken inner) delimiter left = .ok next := by
    intro left
    simp only [close, items, around, bind, Except.bind, pure, Except.pure, if_true]
    rfl
  have ends : endsToken delimiter.closer = true := by cases delimiter <;> rfl
  have closes : step inner delimiter.closer (delimiter.closer :: rest) = .ok next := by
    rw [ready.step_eq _ ends, ← closed (delimiter.closer :: rest)]
    cases delimiter <;> rfl
  rw [List.cons_append, List.append_assoc, List.singleton_append, run_cons_ok opens, ran,
    run_cons_ok closes]

/-! ### Tokens -/

/-- A character that is part of a token wherever it stands but at the front. -/
def IsPlain (c : Char) : Prop := endsToken c = false ∧ c ≠ '\\'

instance : DecidablePred IsPlain := fun c =>
  inferInstanceAs (Decidable (endsToken c = false ∧ c ≠ '\\'))

theorem run_token
    {text : List Char} (plain : ∀ c ∈ text, IsPlain c)
    (state : State) {reversed : List Char} (token : state.mode = .token reversed) :
    ∃ next, (∀ rest, run state (text ++ rest) = run next rest) ∧
      next.mode = .token (text.reverse ++ reversed) ∧
      next.level = state.level ∧ next.outer = state.outer := by
  induction text generalizing state reversed with
  | nil => exact ⟨state, fun _ => rfl, token, rfl, rfl⟩
  | cons c rest inductionHypothesis =>
      have firstPlain := plain c List.mem_cons_self
      have taken : ∀ left, step state c left = .ok (enter state (.token (c :: reversed))) := by
        intro left
        simp only [step, token, firstPlain.1, if_neg firstPlain.2]
        rfl
      obtain ⟨next, ran, mode, level, outer⟩ :=
        inductionHypothesis (fun d member => plain d (List.mem_cons_of_mem c member))
          (enter state (.token (c :: reversed))) rfl
      refine ⟨next, ?_, ?_, level, outer⟩
      · intro left
        rw [List.cons_append, run_cons_ok (taken _), ran]
      · rw [mode, List.reverse_cons, List.append_assoc]
        rfl

theorem token
    {first : Char} {text : List Char}
    (plain : ∀ c ∈ first :: text, IsPlain c) (notQuoting : first ≠ '\'') :
    Reads (first :: text) [tokenValue (first :: text)] := by
  intro state between
  have firstPlain := plain first List.mem_cons_self
  have begins : ∀ left, step state first left = .ok (enter state (.token [first])) := by
    intro left
    obtain ⟨notEnding, notEscape⟩ := firstPlain
    simp only [endsToken, Bool.or_eq_false_iff, beq_eq_false_iff_ne, ne_eq,
      Option.isSome_eq_false_iff, Option.isNone_iff_eq_none] at notEnding
    obtain ⟨⟨⟨⟨notBlank, notQuote⟩, notComment⟩, opensNothing⟩, closesNothing⟩ := notEnding
    simp only [step, between, stepBetween, notBlank, if_neg notQuote, if_neg notComment,
      if_neg notQuoting, if_neg notEscape, opensNothing, closesNothing]
    rfl
  obtain ⟨next, ran, mode, level, outer⟩ :=
    run_token (fun c member => plain c (List.mem_cons_of_mem first member))
      (enter state (.token [first])) rfl
  refine ⟨next, ?_, .inr ⟨_, mode⟩, ?_, outer⟩
  · intro rest
    rw [List.cons_append, run_cons_ok (begins _), ran]
  · have ended : (text.reverse ++ [first]).reverse = first :: text := by
      rw [List.reverse_append, List.reverse_reverse]
      rfl
    simp only [finishToken, mode, ended, push, level]
    rfl

/-! ### Strings -/

theorem run_escapedChars
    (text : List Char) (state : State) {reversed : List Char}
    (inside : state.mode = .string reversed) :
    ∃ next, (∀ rest, run state (escapedChars text ++ rest) = run next rest) ∧
      next.mode = .string (text.reverse ++ reversed) ∧
      next.level = state.level ∧ next.outer = state.outer := by
  induction text generalizing state reversed with
  | nil => exact ⟨state, fun _ => rfl, inside, rfl, rfl⟩
  | cons c rest inductionHypothesis =>
      obtain ⟨own, ranOwn, ownMode, ownLevel, ownOuter⟩ :
          ∃ own : State,
            (∀ left, run state (escapedChars [c] ++ left) = run own left) ∧
              own.mode = .string (c :: reversed) ∧
              own.level = state.level ∧ own.outer = state.outer := by
        by_cases escaped : c = '\\' ∨ c = '"'
        · refine ⟨enter (enter state (.stringEscape reversed)) (.string (c :: reversed)), ?_,
            rfl, rfl, rfl⟩
          intro left
          have shape : escapedChars [c] ++ left = '\\' :: c :: left := by
            simp only [escapedChars, List.flatMap_cons, List.flatMap_nil, if_pos escaped]
            rfl
          have toEscape : ∀ text, step state '\\' text =
              .ok (enter state (.stringEscape reversed)) := by
            intro text
            simp only [step, inside]
            rfl
          have fromEscape : ∀ text, step (enter state (.stringEscape reversed)) c text =
              .ok (enter (enter state (.stringEscape reversed)) (.string (c :: reversed))) := by
            intro text
            rcases escaped with rfl | rfl <;> rfl
          rw [shape, run_cons_ok (toEscape _), run_cons_ok (fromEscape _)]
        · refine ⟨enter state (.string (c :: reversed)), ?_, rfl, rfl, rfl⟩
          intro left
          have shape : escapedChars [c] ++ left = c :: left := by
            simp only [escapedChars, List.flatMap_cons, List.flatMap_nil, if_neg escaped]
            rfl
          rw [not_or] at escaped
          have stays : ∀ text, step state c text = .ok (enter state (.string (c :: reversed))) := by
            intro text
            simp only [step, inside, if_neg escaped.1, if_neg escaped.2]
            rfl
          rw [shape, run_cons_ok (stays _)]
      obtain ⟨next, ran, mode, level, outer⟩ := inductionHypothesis own ownMode
      refine ⟨next, ?_, ?_, level.trans ownLevel, outer.trans ownOuter⟩
      · intro left
        have shape : escapedChars (c :: rest) = escapedChars [c] ++ escapedChars rest := by
          simp only [escapedChars, List.flatMap_cons, List.flatMap_nil, List.append_nil]
        rw [shape, List.append_assoc, ranOwn, ran]
      · rw [mode, List.reverse_cons, List.append_assoc]
        rfl

theorem string (text : List Char) :
    Reads ('"' :: (escapedChars text ++ ['"'])) [.str (String.ofList text)] := by
  intro state between
  have opens : ∀ left, step state '"' left = .ok (enter state (.string [])) := by
    intro left
    rw [step, between]
    rfl
  obtain ⟨inner, ran, mode, level, outer⟩ :=
    run_escapedChars text (enter state (.string [])) rfl
  have shape : (text.reverse ++ []).reverse = text := by
    rw [List.append_nil, List.reverse_reverse]
  have closes : ∀ left, step inner '"' left =
      .ok (enter (push inner (.str (String.ofList text))) .between) := by
    intro left
    simp only [step, mode, shape]
    rfl
  refine ⟨enter (push inner (.str (String.ofList text))) .between, ?_, .inl rfl, ?_, outer⟩
  · intro rest
    rw [List.cons_append, List.append_assoc, List.singleton_append, run_cons_ok (opens _), ran,
      run_cons_ok (closes _)]
  · have kept : inner.level = state.level := level
    simp only [finishToken, enter, push, kept]
    rfl

end Reads

end Sequence

/-! ## Trees -/

theorem strip_eq_nil_iff {text : List Char} :
    Text.strip text = [] ↔ ∀ c ∈ text, Text.isBlank c = true := by
  rw [Text.strip, Text.stripWhile, List.reverse_eq_nil_iff, List.dropWhile_eq_nil_iff]
  constructor
  · intro leftBlank
    cases left : text.dropWhile Text.isBlank with
    | nil => exact List.dropWhile_eq_nil_iff.mp left
    | cons c rest =>
        have visible := @List.head_dropWhile_not _ Text.isBlank text (by simp [left])
        have blank : Text.isBlank c = true := leftBlank c (by simp [left])
        simp only [left, List.head_cons, blank] at visible
        cases visible
  · intro allBlank c member
    exact allBlank c ((List.dropWhile_suffix _).mem (List.mem_reverse.mp member))

namespace Value

/-- The names that a symbol can be read back by: they hold nothing that ends a token or
escapes from it, they do not begin with an apostrophe, no number is written so, and they
are not blank. -/
structure Legible (name : List Char) : Prop where
  plain : ∀ c ∈ name, Sequence.Reads.IsPlain c
  notQuoting : name.head? ≠ some '\''
  notInteger : Literal.readInt? name = none
  notNumber : Literal.readNumber? name = none
  visible : Text.strip name ≠ []

instance (name : List Char) : Decidable (Legible name) :=
  letI : Decidable (∀ c ∈ name, Sequence.Reads.IsPlain c) := List.decidableBAll _ _
  decidable_of_iff
    ((∀ c ∈ name, Sequence.Reads.IsPlain c) ∧ name.head? ≠ some '\'' ∧
      Literal.readInt? name = none ∧ Literal.readNumber? name = none ∧ Text.strip name ≠ [])
    ⟨fun ⟨plain, notQuoting, notInteger, notNumber, visible⟩ =>
      ⟨plain, notQuoting, notInteger, notNumber, visible⟩,
    fun ⟨plain, notQuoting, notInteger, notNumber, visible⟩ =>
      ⟨plain, notQuoting, notInteger, notNumber, visible⟩⟩

mutual

/-- The trees of symbols, integers, strings, lists, vectors and quotes that have a text of
their own: the names of symbols are legible, and integers do not have too many digits. -/
def IsWritable : Value → Prop
  | .symbol name => Legible name.toList
  | .int number => (decimalDigits number.natAbs).length ≤ Literal.maxDigits
  | .str _ => True
  | .list items birth => birth = 0 ∧ AreWritable items
  | .vector items birth => birth = 0 ∧ AreWritable items
  | .quoted form => IsWritable form
  | _ => False

/-- The same for the items of a list. -/
def AreWritable : List Value → Prop
  | [] => True
  | item :: rest => IsWritable item ∧ AreWritable rest

end

variable {showStore : List Enclosure → Nat → Except Failure String}

/-- A text that a tree is printed as and that both scanners take for the tree. -/
structure Written (showStore : List Enclosure → Nat → Except Failure String)
    (tree : Value) (text : String) : Prop where
  printed : source showStore tree = .ok text
  passes : Nesting.Passes text.toList
  reads : Sequence.Reads text.toList [tree]
  visible : ∃ c ∈ text.toList, Text.isBlank c = false

theorem written_symbol
    {name : String} (legible : Legible name.toList) :
    Written showStore (.symbol name) name := by
  obtain ⟨plain, notQuoting, notInteger, notNumber, visible⟩ := legible
  have value : tokenValue name.toList = .symbol name := by
    simp only [tokenValue, notInteger, notNumber, String.ofList_toList]
  refine ⟨rfl, .token fun c member => (plain c member).1, ?_, ?_⟩
  · cases shape : name.toList with
    | nil =>
        rw [shape] at visible
        exact absurd rfl visible
    | cons first rest =>
        rw [shape] at plain notQuoting value
        have notApostrophe : first ≠ '\'' := fun same => notQuoting (congrArg some same)
        have reads := Sequence.Reads.token plain notApostrophe
        rwa [value] at reads
  · by_contra noneVisible
    refine visible (strip_eq_nil_iff.mpr fun c member => ?_)
    by_contra notBlank
    exact noneVisible ⟨c, member, Bool.eq_false_iff.mpr notBlank⟩

theorem written_int
    {number : Int}
    (short : (decimalDigits number.natAbs).length ≤ Literal.maxDigits) :
    Written showStore (.int number) (decimalText number) := by
  have plain : ∀ c ∈ (decimalText number).toList, Sequence.Reads.IsPlain c := fun c member =>
    ⟨(isIntegerChar_of_mem member).plain.1, (isIntegerChar_of_mem member).plain.2.1⟩
  have value : tokenValue (decimalText number).toList = .int number := by
    simp only [tokenValue, readInt_decimalText short]
  have printed : source showStore (.int number) = .ok (decimalText number) := by
    have notLong : ¬ Literal.maxDigits < (decimalDigits number.natAbs).length :=
      Nat.not_lt.mpr short
    simp only [source, shown, integerText, if_neg notLong]
    rfl
  cases shape : (decimalText number).toList with
  | nil =>
      rw [shape] at value
      exact absurd value nofun
  | cons first rest =>
      have isFirst : first ∈ (decimalText number).toList := by simp [shape]
      obtain ⟨-, -, notApostrophe, -, notBlank⟩ := (isIntegerChar_of_mem isFirst).plain
      refine ⟨printed, .token fun c member => (plain c member).1, ?_, ⟨first, isFirst, notBlank⟩⟩
      rw [shape] at plain value ⊢
      have reads := Sequence.Reads.token plain notApostrophe
      rwa [value] at reads

theorem written_str (text : String) :
    Written showStore (.str text) (sourceString text) := by
  refine ⟨rfl, ?_, ?_, '"', ?_, rfl⟩
  · rw [sourceString_toList]
    exact .string text.toList
  · have reads := Sequence.Reads.string text.toList
    rw [String.ofList_toList] at reads
    rwa [sourceString_toList]
  · rw [sourceString_toList]
    exact List.mem_cons_self

theorem written_quoted
    {form : Value} {text : String} (written : Written showStore form text) :
    Written showStore (.quoted form) ("'" ++ text) := by
  have characters : ("'" ++ text).toList = '\'' :: text.toList := by
    rw [String.toList_append]
    rfl
  refine ⟨?_, ?_, ?_, '\'', ?_, rfl⟩
  · rw [source, written.printed]
    rfl
  · rw [characters]
    exact written.passes.apostrophe
  · rw [characters]
    exact written.reads.apostrophe
  · rw [characters]
    exact List.mem_cons_self

/-- The texts of trees, joined by single spaces, are one piece of text for both
scanners. -/
theorem joined_texts
    {trees : List Value} {texts : List String}
    (written : List.Forall₂ (Written showStore) trees texts) :
    sourceItems showStore trees = .ok texts ∧
      Nesting.Passes (joinTexts " " texts).toList ∧
      Sequence.Reads (joinTexts " " texts).toList trees := by
  induction written with
  | nil => exact ⟨rfl, .nil, .nil⟩
  | @cons tree text trees texts first rest inductionHypothesis =>
      obtain ⟨printed, passes, reads⟩ := inductionHypothesis
      refine ⟨?_, ?_⟩
      · rw [sourceItems, first.printed, printed]
        rfl
      · cases rest with
        | nil =>
            simp only [joinTexts, String.intercalate_singleton]
            exact ⟨first.passes, first.reads⟩
        | cons =>
            have characters : ∀ (next : String) (others : List String),
                (joinTexts " " (text :: next :: others)).toList =
                  text.toList ++ ' ' :: (joinTexts " " (next :: others)).toList := by
              intro next others
              rw [joinTexts, String.intercalate_cons_cons, String.toList_append,
                String.toList_append, List.append_assoc]
              rfl
            rw [characters]
            exact ⟨first.passes.spaced passes, first.reads.spaced reads⟩

/-- What is printed between two delimiters is a text of the list or vector. -/
theorem written_delimited
    (delimiter : Delimiter) {items : List Value} {texts : List String} {text : String}
    (written : List.Forall₂ (Written showStore) items texts)
    (characters : text.toList =
      delimiter.opener :: ((joinTexts " " texts).toList ++ [delimiter.closer]))
    (printed : sourceItems showStore items = .ok texts →
      source showStore (Sequence.delimited delimiter items) = .ok text) :
    Written showStore (Sequence.delimited delimiter items) text := by
  obtain ⟨itemsPrinted, passes, reads⟩ := joined_texts written
  refine ⟨printed itemsPrinted, ?_, ?_, delimiter.opener, ?_, by cases delimiter <;> rfl⟩
  · rw [characters]
    exact passes.delimited delimiter
  · rw [characters]
    exact reads.delimited delimiter
  · rw [characters]
    exact List.mem_cons_self

mutual

theorem exists_written (showStore : List Enclosure → Nat → Except Failure String) :
    ∀ tree : Value, tree.IsWritable → ∃ text, Written showStore tree text
  | .symbol name, legible => ⟨name, written_symbol legible⟩
  | .int _, short => ⟨_, written_int short⟩
  | .str text, _ => ⟨_, written_str text⟩
  | .list items birth, writable => by
      obtain ⟨rfl, itemsWritable⟩ := writable
      obtain ⟨texts, written⟩ := exists_writtenItems showStore items itemsWritable
      refine ⟨"(" ++ joinTexts " " texts ++ ")", written_delimited .paren written ?_ ?_⟩
      · simp only [String.toList_append]
        rfl
      · intro printed
        rw [Sequence.delimited, source, printed]
        rfl
  | .vector items birth, writable => by
      obtain ⟨rfl, itemsWritable⟩ := writable
      obtain ⟨texts, written⟩ := exists_writtenItems showStore items itemsWritable
      refine ⟨"[" ++ joinTexts " " texts ++ "]", written_delimited .bracket written ?_ ?_⟩
      · simp only [String.toList_append]
        rfl
      · intro printed
        rw [Sequence.delimited, source, printed]
        rfl
  | .quoted form, writable => by
      obtain ⟨text, written⟩ := exists_written showStore form writable
      exact ⟨_, written_quoted written⟩

theorem exists_writtenItems (showStore : List Enclosure → Nat → Except Failure String) :
    ∀ items : List Value, AreWritable items →
      ∃ texts, List.Forall₂ (Written showStore) items texts
  | [], _ => ⟨[], .nil⟩
  | item :: rest, writable => by
      obtain ⟨text, written⟩ := exists_written showStore item writable.1
      obtain ⟨texts, restWritten⟩ := exists_writtenItems showStore rest writable.2
      exact ⟨text :: texts, .cons written restWritten⟩

end

/-- A text that both scanners take for some trees reads as these. -/
theorem read_of_written
    {trees : List Value} {texts : List String}
    (written : List.Forall₂ (Written showStore) trees texts) :
    read (joinTexts " " texts).toList = .ok trees := by
  obtain ⟨-, passes, reads⟩ := joined_texts written
  obtain ⟨checked, ranCheck, code, noneOpen⟩ := passes Nesting.start rfl
  obtain ⟨final, ran, ready, level, outer⟩ := reads Sequence.start rfl
  have offsets : checkDelimiters (joinTexts " " texts).toList = .ok checked.parens.reverse := by
    have noFault : Nesting.faultAtEnd? checked = none := by
      rw [Nesting.faultAtEnd?, code, noneOpen]
      rfl
    rw [checkDelimiters, ranCheck]
    simp only [bind, Except.bind, noFault, pure, Except.pure]
  have ranAll : Sequence.run Sequence.start (joinTexts " " texts).toList = .ok final := by
    have whole := ran []
    rw [List.append_nil] at whole
    rw [whole]
    rfl
  have items : (Sequence.finishToken final).level.items = .ok trees := by
    rw [level]
    change (trees.foldl Sequence.Level.push ⟨[], []⟩).items = _
    rw [Sequence.foldl_push, List.append_nil, Sequence.Level.items, List.reverse_reverse]
    rfl
  have sequence : readSequence (joinTexts " " texts).toList = .ok trees := by
    rw [readSequence, ranAll]
    simp only [bind, Except.bind, Sequence.finish, items, outer, Sequence.start]
    rcases ready with between | ⟨reversed, token⟩
    · simp only [between, pure, Except.pure]
    · simp only [token, pure, Except.pure]
  rw [read, offsets]
  cases written with
  | nil => rfl
  | @cons tree text trees texts first rest =>
      obtain ⟨c, member, notBlank⟩ := first.visible
      have inJoined : c ∈ (joinTexts " " (text :: texts)).toList := by
        cases texts with
        | nil =>
            rw [joinTexts, String.intercalate_singleton]
            exact member
        | cons next others =>
            rw [joinTexts, String.intercalate_cons_cons, String.toList_append,
              String.toList_append]
            exact List.mem_append_left _ (List.mem_append_left _ member)
      have notEmpty : (Text.strip (joinTexts " " (text :: texts)).toList).isEmpty = false := by
        rw [List.isEmpty_eq_false_iff]
        intro stripped
        have blank := strip_eq_nil_iff.mp stripped c inJoined
        rw [notBlank] at blank
        cases blank
      simp only [bind, Except.bind, Except.mapError, notEmpty, sequence, Bool.false_eq_true,
        if_false]

/-- Printing and then reading gives back what was printed: a tree is the one form of its
text, and trees are the forms of their texts joined by single spaces. -/
theorem read_source :
    (∀ tree : Value, tree.IsWritable →
      ∃ text, source showStore tree = .ok text ∧ readOne text.toList = .ok tree) ∧
    ∀ trees : List Value, AreWritable trees →
      ∃ texts, sourceItems showStore trees = .ok texts ∧
        read (joinTexts " " texts).toList = .ok trees := by
  constructor
  · intro tree writable
    obtain ⟨text, written⟩ := exists_written showStore tree writable
    refine ⟨text, written.printed, ?_⟩
    have reads := read_of_written (.cons written .nil)
    rw [joinTexts, String.intercalate_singleton] at reads
    rw [readOne, reads]
    rfl
  · intro trees writable
    obtain ⟨texts, written⟩ := exists_writtenItems showStore trees writable
    exact ⟨texts, (joined_texts written).1, read_of_written written⟩

/-- A tree with quotes inside quotes, an empty list and an empty vector, strings that end in
a backslash or a quote, and a symbol with an apostrophe in it. -/
def nestedTree : Value :=
  .list
    [.quoted (.quoted (.list [] 0)), .str "a\\", .vector [] 0, .symbol "it's", .int (-42),
      .quoted (.vector [.quoted (.symbol ":up"), .str "\\\""] 0)]
    0

theorem read_source_nestedTree :
    nestedTree.IsWritable ∧ AreWritable [nestedTree, .int 7, nestedTree] ∧
      (∃ text, source showStore nestedTree = .ok text ∧ readOne text.toList = .ok nestedTree) ∧
      ∃ texts, sourceItems showStore [nestedTree, .int 7, nestedTree] = .ok texts ∧
        read (joinTexts " " texts).toList = .ok [nestedTree, .int 7, nestedTree] := by
  have writable : nestedTree.IsWritable := by
    have apostrophe : Legible "it's".toList := by decide +kernel
    have keyword : Legible ":up".toList := by decide +kernel
    have digits : (decimalDigits (-42 : Int).natAbs).length ≤ Literal.maxDigits := by
      decide +kernel
    simp only [nestedTree, IsWritable, AreWritable, apostrophe, keyword, digits, and_self]
  have allWritable : AreWritable [nestedTree, .int 7, nestedTree] :=
    ⟨writable, by simp only [IsWritable]; decide +kernel, writable, trivial⟩
  exact ⟨writable, allWritable, read_source.1 nestedTree writable,
    read_source.2 _ allWritable⟩

end Value

end CueScript
