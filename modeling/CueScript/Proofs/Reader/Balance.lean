import CueScript.Proofs.Reader.Joined
import Mathlib.Data.List.Induction

/-!
# Balanced texts

The delimiter check follows a text character by character.  This module says without any
scanner which texts are balanced: comments and strings are skipped, every string closes,
and parentheses and brackets nest.

The main result is that the check accepts the balanced texts and no others, and that each
of its faults tells the truth about the text.  A closer is blamed where the text before it
is the beginning of a balanced text and the text through it is not.  Otherwise a string is
open at the end, or the innermost open delimiter is followed by a balanced rest.

`Stands` describes every text that the check can follow to its end, by the mode it ends in
and the delimiters that it leaves open.
-/

namespace CueScript

namespace Delimiter

@[simp]
theorem ofOpener?_opener (delimiter : Delimiter) :
    ofOpener? delimiter.opener = some delimiter := by
  cases delimiter <;> rfl

@[simp]
theorem ofOpener?_closer (delimiter : Delimiter) :
    ofOpener? delimiter.closer = none := by
  cases delimiter <;> rfl

@[simp]
theorem ofCloser?_closer (delimiter : Delimiter) :
    ofCloser? delimiter.closer = some delimiter := by
  cases delimiter <;> rfl

theorem eq_opener_of_ofOpener?
    {c : Char} {delimiter : Delimiter}
    (opens : ofOpener? c = some delimiter) :
    c = delimiter.opener := by
  unfold ofOpener? at opens
  split at opens <;> cases opens <;> rfl

theorem eq_closer_of_ofCloser?
    {c : Char} {delimiter : Delimiter}
    (closes : ofCloser? c = some delimiter) :
    c = delimiter.closer := by
  unfold ofCloser? at closes
  split at closes <;> cases closes <;> rfl

end Delimiter

namespace Nesting

/-! ## Balanced texts -/

/-- What can stand between the quotes of a string: a character after a backslash does not
count, whatever it is. -/
inductive IsLiteral : List Char → Prop
  | nil : IsLiteral []
  | plain {c : Char} {rest : List Char}
      (notQuote : c ≠ '"') (notBackslash : c ≠ '\\') (literal : IsLiteral rest) :
      IsLiteral (c :: rest)
  | pair {c : Char} {rest : List Char} (literal : IsLiteral rest) :
      IsLiteral ('\\' :: c :: rest)

/-- Texts that are complete: every comment has its line feed, every string its closing
quote, and every delimiter its partner. -/
inductive Nested : List Char → Prop
  | nil : Nested []
  | plain {c : Char} {rest : List Char}
      (plain : Sequence.IsPlain c) (nested : Nested rest) :
      Nested (c :: rest)
  | comment {words rest : List Char}
      (oneLine : '\n' ∉ words) (nested : Nested rest) :
      Nested (';' :: (words ++ '\n' :: rest))
  | string {body rest : List Char}
      (literal : IsLiteral body) (nested : Nested rest) :
      Nested ('"' :: (body ++ '"' :: rest))
  | delimited (delimiter : Delimiter) {inside rest : List Char}
      (within : Nested inside) (nested : Nested rest) :
      Nested (delimiter.opener :: (inside ++ delimiter.closer :: rest))

/-- Balanced texts: only a comment on the last line can be without its line feed. -/
inductive Balanced : List Char → Prop
  | nested {text : List Char} (nested : Nested text) : Balanced text
  | comment {before words : List Char}
      (nested : Nested before) (oneLine : '\n' ∉ words) :
      Balanced (before ++ ';' :: words)

/-- The beginnings of balanced texts. -/
def Extendable (text : List Char) : Prop := ∃ rest, Balanced (text ++ rest)

/-- Texts that end as code, with the delimiters they leave open and their offsets, from the
innermost out. -/
inductive Leaves : List (Delimiter × Nat) → List Char → Prop
  | nested {text : List Char} (nested : Nested text) : Leaves [] text
  | «open» (delimiter : Delimiter) {opened : List (Delimiter × Nat)}
      {before inside : List Char}
      (leaves : Leaves opened before) (nested : Nested inside) :
      Leaves ((delimiter, before.length) :: opened)
        (before ++ delimiter.opener :: inside)

/-- What can follow an opening quote that no quote closes: a last backslash has no
character to go with. -/
inductive InString : List Char → Prop
  | whole {body : List Char} (literal : IsLiteral body) : InString body
  | escape {body : List Char} (literal : IsLiteral body) : InString (body ++ ['\\'])

/-- A closer at an offset that no balanced text has there: up to each character before it
the text can still become balanced, and through it no more. -/
structure Offends (text : List Char) (offset : Nat) (closer : Delimiter) : Prop where
  closes : text[offset]? = some closer.closer
  before : ∀ earlier ≤ offset, Extendable (text.take earlier)
  through : ¬ Extendable (text.take (offset + 1))

end Nesting

namespace DelimiterFault

open Nesting

/-- The offset that a fault is blamed on. -/
def offset : DelimiterFault → Nat
  | .unterminatedString offset => offset
  | .strayCloser offset _ => offset
  | .mismatchedCloser offset _ _ => offset
  | .unclosed offset _ => offset

/-- What a fault says about a text. -/
def Blames (text : List Char) : DelimiterFault → Prop
  | .strayCloser offset closer =>
      Offends text offset closer ∧ Nested (text.take offset)
  | .mismatchedCloser offset closer expected =>
      Offends text offset closer ∧
        ∃ start opened, Leaves ((expected, start) :: opened) (text.take offset)
  | .unterminatedString offset =>
      ∃ before body opened, text = before ++ '"' :: body ∧ before.length = offset ∧
        Leaves opened before ∧ InString body
  | .unclosed offset opener =>
      ∃ before inside opened, text = before ++ opener.opener :: inside ∧
        before.length = offset ∧ Leaves opened before ∧ Balanced inside

end DelimiterFault

namespace Nesting

theorem IsLiteral.append
    {first second : List Char}
    (firstLiteral : IsLiteral first) (secondLiteral : IsLiteral second) :
    IsLiteral (first ++ second) := by
  induction firstLiteral with
  | nil => exact secondLiteral
  | plain notQuote notBackslash _ inductionHypothesis =>
      exact .plain notQuote notBackslash inductionHypothesis
  | pair _ inductionHypothesis => exact .pair inductionHypothesis

theorem Nested.append
    {first second : List Char}
    (firstNested : Nested first) (secondNested : Nested second) :
    Nested (first ++ second) := by
  induction firstNested with
  | nil => exact secondNested
  | plain plain _ inductionHypothesis => exact .plain plain inductionHypothesis
  | comment oneLine _ inductionHypothesis =>
      simpa using Nested.comment oneLine inductionHypothesis
  | string literal _ inductionHypothesis =>
      simpa using Nested.string literal inductionHypothesis
  | delimited delimiter within _ _ inductionHypothesis =>
      simpa using Nested.delimited delimiter within inductionHypothesis

namespace Leaves

variable {opened : List (Delimiter × Nat)} {before text : List Char}

theorem append
    {inside : List Char}
    (leaves : Leaves opened before) (nested : Nested inside) :
    Leaves opened (before ++ inside) := by
  cases leaves with
  | nested beforeNested => exact .nested (beforeNested.append nested)
  | «open» delimiter leaves insideNested =>
      simpa using Leaves.open delimiter leaves (insideNested.append nested)

/-- The closer of the innermost open delimiter closes it. -/
theorem close
    {delimiter : Delimiter} {start : Nat}
    (leaves : Leaves ((delimiter, start) :: opened) text) :
    Leaves opened (text ++ [delimiter.closer]) := by
  cases leaves with
  | «open» _ leaves nested =>
      simpa using leaves.append (Nested.delimited delimiter nested .nil)

/-- Whatever a text leaves open can be closed. -/
theorem exists_nested
    (leaves : Leaves opened text) :
    ∃ rest, Nested (text ++ rest) := by
  induction opened generalizing text with
  | nil =>
      cases leaves with
      | nested nested =>
          exact ⟨[], by simpa using nested⟩
  | cons innermost outer inductionHypothesis =>
      obtain ⟨rest, nested⟩ := inductionHypothesis leaves.close
      exact ⟨innermost.1.closer :: rest, by simpa using nested⟩

end Leaves

/-! ## What the check makes of a text -/

/-- The texts that the check follows to the end, by the mode in which they end and the
delimiters they leave open. -/
inductive Stands : List Char → Mode → List (Delimiter × Nat) → Prop
  | code {text : List Char} {opened : List (Delimiter × Nat)}
      (leaves : Leaves opened text) :
      Stands text .code opened
  | comment {before words : List Char} {opened : List (Delimiter × Nat)}
      (leaves : Leaves opened before) (oneLine : '\n' ∉ words) :
      Stands (before ++ ';' :: words) .comment opened
  | string {before body : List Char} {opened : List (Delimiter × Nat)}
      (leaves : Leaves opened before) (literal : IsLiteral body) :
      Stands (before ++ '"' :: body) (.string before.length) opened
  | escape {before body : List Char} {opened : List (Delimiter × Nat)}
      (leaves : Leaves opened before) (literal : IsLiteral body) :
      Stands (before ++ '"' :: (body ++ ['\\'])) (.escape before.length) opened

theorem Stands.extendable
    {text : List Char} {mode : Mode} {opened : List (Delimiter × Nat)}
    (stands : Stands text mode opened) :
    Extendable text := by
  have closing : ∀ (more : List Char), Leaves opened (text ++ more) → Extendable text := by
    intro more leaves
    obtain ⟨rest, nested⟩ := leaves.exists_nested
    exact ⟨more ++ rest, .nested (by simpa using nested)⟩
  cases stands with
  | code leaves => exact closing [] (by simpa using leaves)
  | comment leaves oneLine =>
      apply closing ['\n']
      simpa using leaves.append (Nested.comment oneLine .nil)
  | string leaves literal =>
      apply closing ['"']
      simpa using leaves.append (Nested.string literal .nil)
  | escape leaves literal =>
      apply closing [' ', '"']
      have paired := literal.append (.pair (c := ' ') .nil)
      simpa using leaves.append (Nested.string paired .nil)

/-! ### From the scanner to the grammar -/

theorem step_stands_code
    {text : List Char} {state next : State} {c : Char}
    (leaves : Leaves state.opened text)
    (code : state.mode = .code)
    (place : state.offset = text.length)
    (taken : step state c = .ok next) :
    Stands (text ++ [c]) next.mode next.opened := by
  simp only [step, code] at taken
  by_cases comment : c = ';'
  · subst comment
    cases taken
    exact .comment leaves (List.not_mem_nil)
  rw [if_neg comment] at taken
  by_cases quote : c = '"'
  · subst quote
    cases taken
    rw [place]
    exact .string leaves .nil
  rw [if_neg quote] at taken
  cases opens : Delimiter.ofOpener? c with
  | some opener =>
      rw [opens] at taken
      cases taken
      rw [Delimiter.eq_opener_of_ofOpener? opens]
      simp only [«open», code, place]
      exact .code (.open opener leaves .nil)
  | none =>
      cases closes : Delimiter.ofCloser? c with
      | none =>
          rw [opens, closes] at taken
          cases taken
          exact .code (leaves.append (.plain ⟨comment, quote, opens, closes⟩ .nil))
      | some closer =>
          rw [opens, closes] at taken
          rw [Delimiter.eq_closer_of_ofCloser? closes]
          simp only [close] at taken
          cases opened : state.opened with
          | nil =>
              rw [opened] at taken
              cases taken
          | cons innermost outer =>
              rw [opened] at taken leaves
              by_cases same : innermost.1 = closer
              · simp only [if_pos same] at taken
                cases taken
                simp only [code]
                exact .code (same ▸ leaves.close)
              · simp only [if_neg same] at taken
                cases taken

theorem step_stands
    {text : List Char} {state next : State} {c : Char}
    (stands : Stands text state.mode state.opened)
    (place : state.offset = text.length)
    (taken : step state c = .ok next) :
    Stands (text ++ [c]) next.mode next.opened := by
  obtain ⟨offset, mode, opened, parens⟩ := state
  cases stands with
  | code leaves => exact step_stands_code leaves rfl place taken
  | comment leaves oneLine =>
      simp only [step] at taken
      cases taken
      simp only [enter]
      split
      · next ends =>
          subst ends
          have nested := Nested.comment oneLine .nil
          simpa using Stands.code (leaves.append nested)
      · next goesOn =>
          simpa using Stands.comment leaves
            (by simpa using ⟨oneLine, Ne.symm goesOn⟩ : '\n' ∉ _ ++ [c])
  | string leaves literal =>
      simp only [step] at taken
      by_cases quote : c = '"'
      · subst quote
        rw [if_pos rfl] at taken
        cases taken
        have nested := Nested.string literal .nil
        simpa [enter] using Stands.code (leaves.append nested)
      · rw [if_neg quote] at taken
        by_cases backslash : c = '\\'
        · subst backslash
          rw [if_pos rfl] at taken
          cases taken
          simpa [enter] using Stands.escape leaves literal
        · rw [if_neg backslash] at taken
          cases taken
          have longer := literal.append (.plain quote backslash .nil)
          simpa [enter] using Stands.string leaves longer
  | escape leaves literal =>
      simp only [step] at taken
      cases taken
      have longer := literal.append (.pair (c := c) .nil)
      simpa [enter] using Stands.string leaves longer

/-- What the check does with the last character of a text. -/
theorem foldlM_snoc_eq_ok_iff
    {text : List Char} {c : Char} {state final : State} :
    (text ++ [c]).foldlM step state = .ok final ↔
      ∃ middle, text.foldlM step state = .ok middle ∧ step middle c = .ok final := by
  rw [List.foldlM_append]
  cases text.foldlM step state with
  | error fault => simp [bind, Except.bind]
  | ok middle =>
      cases taken : step middle c <;> simp [bind, Except.bind, taken, pure, Except.pure]

theorem stands_of_foldlM
    {text : List Char} {final : State}
    (followed : text.foldlM step start = .ok final) :
    Stands text final.mode final.opened := by
  induction text using List.reverseRecOn generalizing final with
  | nil =>
      cases followed
      exact .code (.nested .nil)
  | append_singleton text c inductionHypothesis =>
      obtain ⟨middle, ran, taken⟩ := foldlM_snoc_eq_ok_iff.mp followed
      have place := offset_of_foldlM ran
      exact step_stands (inductionHypothesis ran) (by simpa [start] using place) taken

/-! ### From the grammar to the scanner -/

theorem foldlM_append_ok
    {first second : List Char} {state middle final : State}
    (ranFirst : first.foldlM step state = .ok middle)
    (ranSecond : second.foldlM step middle = .ok final) :
    (first ++ second).foldlM step state = .ok final := by
  rw [List.foldlM_append, ranFirst]
  exact ranSecond

theorem foldlM_cons_ok
    {c : Char} {rest : List Char} {state middle final : State}
    (taken : step state c = .ok middle)
    (ran : rest.foldlM step middle = .ok final) :
    (c :: rest).foldlM step state = .ok final := by
  rw [List.foldlM_cons, taken]
  exact ran

theorem foldlM_comment
    {words : List Char} (state : State)
    (inside : state.mode = .comment) (oneLine : '\n' ∉ words) :
    ∃ next, words.foldlM step state = .ok next ∧ next.mode = .comment ∧
      next.opened = state.opened := by
  induction words generalizing state with
  | nil => exact ⟨state, rfl, inside, rfl⟩
  | cons c rest inductionHypothesis =>
      rw [List.mem_cons, not_or] at oneLine
      obtain ⟨next, ran, nextMode, nextOpened⟩ :=
        inductionHypothesis (enter state .comment) rfl oneLine.2
      have taken : step state c = .ok (enter state .comment) := by
        simp only [step, inside, if_neg (Ne.symm oneLine.1)]
        rfl
      exact ⟨next, foldlM_cons_ok taken ran, nextMode, nextOpened⟩

theorem foldlM_literal
    {body : List Char} (state : State) {start : Nat}
    (literal : IsLiteral body) (inside : state.mode = .string start) :
    ∃ next, body.foldlM step state = .ok next ∧ next.mode = .string start ∧
      next.opened = state.opened := by
  induction literal generalizing state with
  | nil => exact ⟨state, rfl, inside, rfl⟩
  | plain notQuote notBackslash _ inductionHypothesis =>
      obtain ⟨next, ran, nextMode, nextOpened⟩ :=
        inductionHypothesis (enter state (.string start)) rfl
      refine ⟨next, foldlM_cons_ok ?_ ran, nextMode, nextOpened⟩
      simp only [step, inside, if_neg notQuote, if_neg notBackslash]
      rfl
  | @pair c _ _ inductionHypothesis =>
      obtain ⟨next, ran, nextMode, nextOpened⟩ :=
        inductionHypothesis (enter (enter state (.escape start)) (.string start)) rfl
      have escapes : step state '\\' = .ok (enter state (.escape start)) := by
        simp only [step, inside]
        rfl
      have skips : step (enter state (.escape start)) c =
          .ok (enter (enter state (.escape start)) (.string start)) := rfl
      exact ⟨next, foldlM_cons_ok escapes (foldlM_cons_ok skips ran), nextMode, nextOpened⟩

theorem step_semicolon
    {state : State} (code : state.mode = .code) :
    step state ';' = .ok (enter state .comment) := by
  simp only [step, code]
  rfl

theorem step_quote
    {state : State} (code : state.mode = .code) :
    step state '"' = .ok (enter state (.string state.offset)) := by
  simp only [step, code]
  rfl

theorem step_opener
    {state : State} (code : state.mode = .code) (delimiter : Delimiter) :
    step state delimiter.opener = .ok («open» state delimiter) := by
  cases delimiter <;> simp only [step, code] <;> rfl

theorem step_closer
    {state : State} (code : state.mode = .code) (delimiter : Delimiter) :
    step state delimiter.closer = close state delimiter := by
  cases delimiter <;> simp only [step, code] <;> rfl

theorem passes_of_nested
    {text : List Char} (nested : Nested text) :
    Passes text := by
  induction nested with
  | nil => exact .nil
  | @plain c rest plain _ inductionHypothesis =>
      refine .cons (fun state code => ?_) inductionHypothesis
      obtain ⟨notComment, notQuote, opensNothing, closesNothing⟩ := plain
      simp only [step, code, if_neg notComment, if_neg notQuote, opensNothing, closesNothing]
      rfl
  | @comment words rest oneLine _ inductionHypothesis =>
      intro state code
      obtain ⟨last, ranWords, lastMode, lastOpened⟩ :=
        foldlM_comment (enter state .comment) rfl oneLine
      obtain ⟨next, ranRest, nextMode, nextOpened⟩ := inductionHypothesis (enter last .code) rfl
      have lineEnds : step last '\n' = .ok (enter last .code) := by
        simp only [step, lastMode]
        rfl
      exact ⟨next, foldlM_cons_ok (step_semicolon code)
        (foldlM_append_ok ranWords (foldlM_cons_ok lineEnds ranRest)), nextMode,
        nextOpened.trans lastOpened⟩
  | @string body rest literal _ inductionHypothesis =>
      intro state code
      obtain ⟨last, ranBody, lastMode, lastOpened⟩ :=
        foldlM_literal (enter state (.string state.offset)) literal rfl
      obtain ⟨next, ranRest, nextMode, nextOpened⟩ := inductionHypothesis (enter last .code) rfl
      have closes : step last '"' = .ok (enter last .code) := by
        simp only [step, lastMode]
        rfl
      exact ⟨next, foldlM_cons_ok (step_quote code)
        (foldlM_append_ok ranBody (foldlM_cons_ok closes ranRest)), nextMode,
        nextOpened.trans lastOpened⟩
  | @delimited delimiter inside rest _ _ passesInside passesRest =>
      simpa using (passesInside.delimited delimiter).append passesRest

theorem foldlM_of_leaves
    {text : List Char} {opened : List (Delimiter × Nat)}
    (leaves : Leaves opened text) :
    ∃ final, text.foldlM step start = .ok final ∧ final.mode = .code ∧
      final.opened = opened := by
  induction leaves with
  | nested nested => exact passes_of_nested nested start rfl
  | @«open» delimiter opened before inside _ nested inductionHypothesis =>
      obtain ⟨middle, ranBefore, code, middleOpened⟩ := inductionHypothesis
      have place : middle.offset = before.length := by
        simpa [start] using offset_of_foldlM ranBefore
      obtain ⟨final, ranInside, finalMode, finalOpened⟩ :=
        passes_of_nested nested («open» middle delimiter) code
      refine ⟨final, foldlM_append_ok ranBefore
        (foldlM_cons_ok (step_opener code delimiter) ranInside), finalMode, ?_⟩
      rw [finalOpened]
      simp only [«open», place, middleOpened]

/-- The check ends in a mode with some delimiters open exactly if the text stands so. -/
theorem stands_iff
    {text : List Char} {mode : Mode} {opened : List (Delimiter × Nat)} :
    Stands text mode opened ↔
      ∃ final, text.foldlM step start = .ok final ∧ final.mode = mode ∧
        final.opened = opened := by
  constructor
  · intro stands
    cases stands with
    | code leaves => exact foldlM_of_leaves leaves
    | comment leaves oneLine =>
        obtain ⟨middle, ranBefore, code, middleOpened⟩ := foldlM_of_leaves leaves
        obtain ⟨final, ranWords, finalMode, finalOpened⟩ :=
          foldlM_comment (enter middle .comment) rfl oneLine
        exact ⟨final, foldlM_append_ok ranBefore
          (foldlM_cons_ok (step_semicolon code) ranWords), finalMode,
          finalOpened.trans middleOpened⟩
    | @string before body _ leaves literal =>
        obtain ⟨middle, ranBefore, code, middleOpened⟩ := foldlM_of_leaves leaves
        have place : middle.offset = before.length := by
          simpa [start] using offset_of_foldlM ranBefore
        obtain ⟨final, ranBody, finalMode, finalOpened⟩ :=
          foldlM_literal (enter middle (.string middle.offset)) literal rfl
        exact ⟨final, foldlM_append_ok ranBefore
          (foldlM_cons_ok (step_quote code) ranBody), place ▸ finalMode,
          finalOpened.trans middleOpened⟩
    | @escape before body _ leaves literal =>
        obtain ⟨middle, ranBefore, code, middleOpened⟩ := foldlM_of_leaves leaves
        have place : middle.offset = before.length := by
          simpa [start] using offset_of_foldlM ranBefore
        obtain ⟨last, ranBody, lastMode, lastOpened⟩ :=
          foldlM_literal (enter middle (.string middle.offset)) literal rfl
        have escapes : step last '\\' = .ok (enter last (.escape middle.offset)) := by
          simp only [step, lastMode]
          rfl
        exact ⟨enter last (.escape middle.offset), foldlM_append_ok ranBefore
          (foldlM_cons_ok (step_quote code)
            (foldlM_append_ok ranBody (foldlM_cons_ok escapes rfl))),
          congrArg Mode.escape place, lastOpened.trans middleOpened⟩
  · rintro ⟨final, followed, rfl, rfl⟩
    exact stands_of_foldlM followed

/-! ## What the check accepts -/

theorem stands_of_balanced
    {text : List Char} (balanced : Balanced text) :
    Stands text .code [] ∨ Stands text .comment [] := by
  cases balanced with
  | nested nested => exact .inl (.code (.nested nested))
  | comment nested oneLine => exact .inr (.comment (.nested nested) oneLine)

theorem balanced_of_stands
    {text : List Char}
    (stands : Stands text .code [] ∨ Stands text .comment []) :
    Balanced text := by
  rcases stands with stands | stands
  · cases stands with
    | code leaves =>
        cases leaves with
        | nested nested => exact .nested nested
  · cases stands with
    | comment leaves oneLine =>
        cases leaves with
        | nested nested => exact .comment nested oneLine

/-- The beginnings of balanced texts are the texts that the check follows to the end. -/
theorem extendable_iff
    {text : List Char} :
    Extendable text ↔ ∃ final, text.foldlM step start = .ok final := by
  constructor
  · rintro ⟨rest, balanced⟩
    have whole : ∃ final, (text ++ rest).foldlM step start = .ok final := by
      rcases stands_of_balanced balanced with stands | stands <;>
        exact (stands_iff.mp stands).imp fun _ ended => ended.1
    obtain ⟨final, followed⟩ := whole
    rw [List.foldlM_append] at followed
    cases ran : text.foldlM step start with
    | error fault =>
        rw [ran] at followed
        cases followed
    | ok middle => exact ⟨middle, rfl⟩
  · rintro ⟨final, followed⟩
    exact (stands_of_foldlM followed).extendable

end Nesting

open Nesting

theorem checkDelimiters_of_foldlM
    {text : List Char} {final : State}
    (followed : text.foldlM step start = .ok final) :
    checkDelimiters text =
      match faultAtEnd? final with
      | some fault => .error fault
      | none => .ok final.parens.reverse := by
  unfold checkDelimiters
  rw [followed]
  simp only [bind, Except.bind]
  cases faultAtEnd? final <;> rfl

theorem checkDelimiters_eq_ok_iff
    {text : List Char} :
    (∃ offsets, checkDelimiters text = .ok offsets) ↔ Balanced text := by
  constructor
  · rintro ⟨offsets, accepted⟩
    obtain ⟨final, followed, atEnd, -⟩ := final_of_checkDelimiters accepted
    have stands := stands_of_foldlM followed
    obtain ⟨offset, mode, opened, parens⟩ := final
    apply balanced_of_stands
    cases opened with
    | cons innermost outer => cases mode <;> cases atEnd
    | nil =>
        cases mode with
        | code => exact .inl stands
        | comment => exact .inr stands
        | string start | escape start => cases atEnd
  · intro balanced
    rcases stands_of_balanced balanced with stands | stands
    all_goals
      obtain ⟨final, followed, mode, opened⟩ := stands_iff.mp stands
      have atEnd : faultAtEnd? final = none := by
        simp only [faultAtEnd?, mode, opened]
      rw [checkDelimiters_of_foldlM followed, atEnd]
      exact ⟨final.parens.reverse, rfl⟩

/-! ## What the check blames -/

namespace Nesting

theorem exists_offence
    {text : List Char} {fault : DelimiterFault} {state : State}
    (stopped : text.foldlM step state = .error fault) :
    ∃ before c after middle, text = before ++ c :: after ∧
      before.foldlM step state = .ok middle ∧ step middle c = .error fault := by
  induction text generalizing state with
  | nil => cases stopped
  | cons c rest inductionHypothesis =>
      cases taken : step state c with
      | error other =>
          rw [List.foldlM_cons, taken] at stopped
          cases stopped
          exact ⟨[], c, rest, state, rfl, rfl, taken⟩
      | ok next =>
          rw [List.foldlM_cons, taken] at stopped
          obtain ⟨before, d, after, middle, rfl, ran, offends⟩ := inductionHypothesis stopped
          exact ⟨c :: before, d, after, middle, rfl, foldlM_cons_ok taken ran, offends⟩

/-- Only a closer in code stops the check. -/
theorem step_eq_error
    {state : State} {c : Char} {fault : DelimiterFault}
    (stopped : step state c = .error fault) :
    ∃ closer : Delimiter, state.mode = .code ∧ c = closer.closer ∧
      close state closer = .error fault := by
  cases mode : state.mode with
  | comment | escape start =>
      simp only [step, mode] at stopped
      cases stopped
  | string start =>
      simp only [step, mode] at stopped
      split at stopped
      · cases stopped
      · split at stopped <;> cases stopped
  | code =>
      simp only [step, mode] at stopped
      split at stopped
      · cases stopped
      · split at stopped
        · cases stopped
        · split at stopped
          · cases stopped
          · next closer _ closes =>
              exact ⟨closer, rfl, Delimiter.eq_closer_of_ofCloser? closes, stopped⟩
          · cases stopped

theorem offends_of_stop
    {before : List Char} (after : List Char) {closer : Delimiter} {middle : State}
    {fault : DelimiterFault}
    (ran : before.foldlM step start = .ok middle)
    (stopped : step middle closer.closer = .error fault) :
    Offends (before ++ closer.closer :: after) before.length closer where
  closes := by simp
  before := by
    intro earlier bound
    rw [List.take_append_of_le_length bound, extendable_iff]
    rw [← List.take_append_drop earlier before, List.foldlM_append] at ran
    cases ranEarlier : (before.take earlier).foldlM step start with
    | error other =>
        rw [ranEarlier] at ran
        cases ran
    | ok state => exact ⟨state, rfl⟩
  through := by
    rw [extendable_iff]
    rintro ⟨final, followed⟩
    have through : (before ++ closer.closer :: after).take (before.length + 1) =
        before ++ [closer.closer] := by
      rw [List.append_cons, List.take_left' (by simp)]
    rw [through, foldlM_snoc_eq_ok_iff] at followed
    obtain ⟨state, ranAgain, taken⟩ := followed
    rw [ran] at ranAgain
    cases ranAgain
    rw [stopped] at taken
    cases taken

theorem split_of_getElem?
    {text : List Char} {offset : Nat} {c : Char}
    (found : text[offset]? = some c) :
    text = text.take offset ++ c :: text.drop (offset + 1) ∧
      (text.take offset).length = offset := by
  obtain ⟨bound, here⟩ := List.getElem?_eq_some_iff.mp found
  rw [← here, ← List.drop_eq_getElem_cons bound, List.take_append_drop, List.length_take]
  exact ⟨rfl, by omega⟩

/-- The fault of a closer that does not close the innermost of some open delimiters. -/
def refusal (offset : Nat) (closer : Delimiter) : List (Delimiter × Nat) → DelimiterFault
  | [] => .strayCloser offset closer
  | (expected, _) :: _ => .mismatchedCloser offset closer expected

theorem eq_refusal_of_close
    {state : State} {closer : Delimiter} {fault : DelimiterFault}
    (refused : close state closer = .error fault) :
    fault = refusal state.offset closer state.opened := by
  unfold close at refused
  split at refused
  · next none =>
      cases refused
      rw [none]
      rfl
  · next innermost start outer some =>
      split at refused
      · cases refused
      · cases refused
        rw [some]
        rfl

end Nesting

theorem checkDelimiters_of_stop
    {before : List Char} (after : List Char) {c : Char} {middle : State} {fault : DelimiterFault}
    (ran : before.foldlM step start = .ok middle)
    (stopped : step middle c = .error fault) :
    checkDelimiters (before ++ c :: after) = .error fault := by
  have followed : (before ++ c :: after).foldlM step start = .error fault := by
    rw [List.foldlM_append, ran]
    change (c :: after).foldlM step middle = _
    rw [List.foldlM_cons, stopped]
    rfl
  rw [checkDelimiters, followed]
  rfl

theorem blames_of_stop
    {before after : List Char} {c : Char} {middle : State} {fault : DelimiterFault}
    (ran : before.foldlM step start = .ok middle)
    (stopped : step middle c = .error fault) :
    fault.Blames (before ++ c :: after) := by
  obtain ⟨closer, code, rfl, refused⟩ := step_eq_error stopped
  have offends := offends_of_stop after ran stopped
  have place : middle.offset = before.length := by
    simpa [start] using offset_of_foldlM ran
  have leaves : Leaves middle.opened before := by
    have stands := stands_of_foldlM ran
    rw [code] at stands
    cases stands with
    | code leaves => exact leaves
  have upTo : (before ++ closer.closer :: after).take before.length = before :=
    List.take_left' rfl
  rw [eq_refusal_of_close refused, place]
  rw [← upTo] at leaves
  generalize middle.opened = opened at leaves ⊢
  cases opened with
  | nil =>
      cases leaves with
      | nested nested => exact ⟨offends, nested⟩
  | cons innermost outer => exact ⟨offends, innermost.2, outer, leaves⟩

theorem blames_of_faultAtEnd?
    {text : List Char} {final : State} {fault : DelimiterFault}
    (followed : text.foldlM step start = .ok final)
    (atEnd : faultAtEnd? final = some fault) :
    fault.Blames text := by
  have stands := stands_of_foldlM followed
  obtain ⟨offset, mode, opened, parens⟩ := final
  cases stands with
  | string leaves literal =>
      cases atEnd
      exact ⟨_, _, opened, rfl, rfl, leaves, .whole literal⟩
  | escape leaves literal =>
      cases atEnd
      exact ⟨_, _, opened, rfl, rfl, leaves, .escape literal⟩
  | code leaves =>
      cases leaves with
      | nested nested => cases atEnd
      | «open» delimiter leaves nested =>
          cases atEnd
          exact ⟨_, _, _, rfl, rfl, leaves, .nested nested⟩
  | comment leaves oneLine =>
      cases leaves with
      | nested nested => cases atEnd
      | «open» delimiter leaves nested =>
          cases atEnd
          exact ⟨_, _, _, by simp, rfl, leaves, .comment nested oneLine⟩

/-- A closer that offends is refused in the state that the text before it leaves. -/
theorem checkDelimiters_of_offends
    {text : List Char} {offset : Nat} {closer : Delimiter}
    {opened : List (Delimiter × Nat)}
    (offends : Offends text offset closer)
    (leaves : Leaves opened (text.take offset)) :
    checkDelimiters text = .error (refusal offset closer opened) := by
  obtain ⟨whole, length⟩ := split_of_getElem? offends.closes
  obtain ⟨middle, ran, code, rfl⟩ := foldlM_of_leaves leaves
  have place : middle.offset = offset := by
    simpa [start, length] using offset_of_foldlM ran
  cases taken : close middle closer with
  | ok next =>
      exfalso
      apply offends.through
      rw [extendable_iff, List.take_add_one, offends.closes]
      exact ⟨next, foldlM_snoc_eq_ok_iff.mpr
        ⟨middle, ran, (step_closer code closer).trans taken⟩⟩
  | error fault =>
      have stopped := (step_closer code closer).trans taken
      have checked := checkDelimiters_of_stop (text.drop (offset + 1)) ran stopped
      rw [← whole, eq_refusal_of_close taken, place] at checked
      exact checked

theorem checkDelimiters_eq_error_iff
    {text : List Char} {fault : DelimiterFault} :
    checkDelimiters text = .error fault ↔ fault.Blames text := by
  constructor
  · intro rejected
    cases followed : text.foldlM step start with
    | error other =>
        obtain ⟨before, c, after, middle, rfl, ran, stopped⟩ := exists_offence followed
        rw [checkDelimiters_of_stop after ran stopped] at rejected
        cases rejected
        exact blames_of_stop ran stopped
    | ok final =>
        rw [checkDelimiters_of_foldlM followed] at rejected
        split at rejected
        · next other atEnd =>
            cases rejected
            exact blames_of_faultAtEnd? followed atEnd
        · cases rejected
  · intro blames
    cases fault with
    | strayCloser offset closer =>
        obtain ⟨offends, nested⟩ := blames
        exact checkDelimiters_of_offends offends (.nested nested)
    | mismatchedCloser offset closer expected =>
        obtain ⟨offends, start, opened, leaves⟩ := blames
        exact checkDelimiters_of_offends offends leaves
    | unterminatedString offset =>
        obtain ⟨before, body, opened, rfl, rfl, leaves, inString⟩ := blames
        cases inString with
        | whole literal =>
            obtain ⟨final, followed, mode, -⟩ := stands_iff.mp (.string leaves literal)
            simp only [checkDelimiters_of_foldlM followed, faultAtEnd?, mode]
        | escape literal =>
            obtain ⟨final, followed, mode, -⟩ := stands_iff.mp (.escape leaves literal)
            simp only [checkDelimiters_of_foldlM followed, faultAtEnd?, mode]
    | unclosed offset opener =>
        obtain ⟨before, inside, opened, rfl, rfl, leaves, balanced⟩ := blames
        cases balanced with
        | nested nested =>
            obtain ⟨final, followed, mode, open_⟩ :=
              stands_iff.mp (.code (.open opener leaves nested))
            simp only [checkDelimiters_of_foldlM followed, faultAtEnd?, mode, open_]
        | comment nested oneLine =>
            obtain ⟨final, followed, mode, open_⟩ :=
              stands_iff.mp (.comment (.open opener leaves nested) oneLine)
            rw [List.append_assoc] at followed
            simp only [List.cons_append] at followed
            simp only [checkDelimiters_of_foldlM followed, faultAtEnd?, mode, open_]

/-! ## Places of faults -/

namespace Span

/-- A span that tells the place of an offset: its line counts the line feeds before the
offset, its column what stands after the last of them. -/
structure Tells (span : Span) (text : List Char) (offset : Nat) : Prop where
  line : span.line = (text.take offset).count '\n' + 1
  column : ∃ earlier current, text.take offset = earlier ++ current ∧
    (earlier = [] ∨ ∃ lines, earlier = lines ++ ['\n']) ∧ '\n' ∉ current ∧
    span.column = current.length + 1

theorem tells_atOffset (text : List Char) (offset : Nat) (file : String) :
    Tells (atOffset text offset file) text offset where
  line := by simp [atOffset, point, make, lineAfter]
  column := by
    have sides := List.takeWhile_append_dropWhile (p := (· != '\n'))
      (l := (text.take offset).reverse)
    refine ⟨((text.take offset).reverse.dropWhile (· != '\n')).reverse,
      ((text.take offset).reverse.takeWhile (· != '\n')).reverse, ?_, ?_, ?_, ?_⟩
    · rw [← List.reverse_append, sides, List.reverse_reverse]
    · cases rest : (text.take offset).reverse.dropWhile (· != '\n') with
      | nil => exact .inl rfl
      | cons c lines =>
          have feed : c = '\n' := by
            have stops := List.head?_dropWhile_not (· != '\n') (text.take offset).reverse
            simpa [rest] using stops
          exact .inr ⟨lines.reverse, by rw [List.reverse_cons, feed]⟩
    · intro member
      have passed := List.mem_takeWhile_imp (List.mem_reverse.mp member)
      simp at passed
    · simp [atOffset, point, make, columnAfter]

end Span

/-- The check accepts the balanced texts and no others; what it blames and where is what
`DelimiterFault.Blames` says of the text; and its report tells the place of that offset. -/
theorem checkDelimiters_balanced_or_blames (text : List Char) :
    ((∃ offsets, checkDelimiters text = .ok offsets) ↔ Balanced text) ∧
      ∀ fault : DelimiterFault,
        (checkDelimiters text = .error fault ↔ fault.Blames text) ∧
          ∀ filename : String,
            let span := (ReadFault.delimiterReport text filename fault).diagnostic.span
            span.file = filename ∧ span.Tells text fault.offset := by
  refine ⟨checkDelimiters_eq_ok_iff, fun fault => ⟨checkDelimiters_eq_error_iff, ?_⟩⟩
  intro filename
  have tells := Span.tells_atOffset text fault.offset filename
  cases fault <;> exact ⟨rfl, tells⟩

/-- A closer is blamed before a string and a delimiter that are open at the end. -/
example :
    checkDelimiters "(\"\\\")\" ; )\n] \"(".toList =
      .error (.mismatchedCloser 11 .bracket .paren) := by
  rfl

end CueScript
