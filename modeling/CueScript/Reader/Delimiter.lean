/-!
# Nesting of delimiters

Before a text is read its delimiters are checked.  `Nesting.step` follows the text
one character at a time: comments run to the end of the line, in a string the
character after a backslash does not count, and everything else is code, in which
each closing delimiter has to match the innermost open one.

`checkDelimiters` gives the offsets of all opening parentheses in text order, or
the first fault with the offset it is blamed on.
-/

namespace CueScript

/-- Parentheses and square brackets. -/
inductive Delimiter where
  | paren
  | bracket
  deriving DecidableEq, Repr

namespace Delimiter

/-- The opening character. -/
def opener : Delimiter → Char
  | paren => '('
  | bracket => '['

/-- The closing character. -/
def closer : Delimiter → Char
  | paren => ')'
  | bracket => ']'

/-- The delimiter a character opens. -/
def ofOpener? : Char → Option Delimiter
  | '(' => some paren
  | '[' => some bracket
  | _ => none

/-- The delimiter a character closes. -/
def ofCloser? : Char → Option Delimiter
  | ')' => some paren
  | ']' => some bracket
  | _ => none

end Delimiter

/-- What is wrong with the delimiters of a text, with the offset to blame. -/
inductive DelimiterFault where
  /-- A string is not closed; the offset is that of its opening quote. -/
  | unterminatedString (offset : Nat)
  /-- A closer has no open delimiter. -/
  | strayCloser (offset : Nat) (closer : Delimiter)
  /-- A closer does not match the innermost open delimiter. -/
  | mismatchedCloser (offset : Nat) (closer expected : Delimiter)
  /-- The text ends inside a delimiter; the offset is that of the innermost. -/
  | unclosed (offset : Nat) (opener : Delimiter)
  deriving DecidableEq, Repr

namespace Nesting

/-- What kind of text the next character belongs to. -/
inductive Mode where
  | code
  | comment
  | string (start : Nat)
  | escape (start : Nat)
  deriving DecidableEq, Repr

/-- The state after part of a text: the offset of the next character, its mode, the
open delimiters from the innermost out, and the parentheses seen, last first. -/
structure State where
  offset : Nat
  mode : Mode
  opened : List (Delimiter × Nat)
  parens : List Nat
  deriving DecidableEq, Repr

/-- The state before the first character. -/
def start : State := ⟨0, .code, [], []⟩

/-- Close the innermost open delimiter. -/
def close (state : State) (closer : Delimiter) : Except DelimiterFault State :=
  match state.opened with
  | [] => throw (.strayCloser state.offset closer)
  | (opener, _) :: rest =>
      if opener = closer then
        pure { state with offset := state.offset + 1, opened := rest }
      else
        throw (.mismatchedCloser state.offset closer opener)

/-- Open a delimiter at the current offset. -/
def «open» (state : State) (opener : Delimiter) : State :=
  { state with
    offset := state.offset + 1
    opened := (opener, state.offset) :: state.opened
    parens := if opener = .paren then state.offset :: state.parens else state.parens }

/-- Go on to the next character in some mode. -/
def enter (state : State) (mode : Mode) : State :=
  { state with offset := state.offset + 1, mode := mode }

/-- Follow one character. -/
def step (state : State) (c : Char) : Except DelimiterFault State :=
  match state.mode with
  | .comment => pure (enter state (if c = '\n' then .code else .comment))
  | .escape start => pure (enter state (.string start))
  | .string start =>
      if c = '"' then
        pure (enter state .code)
      else if c = '\\' then
        pure (enter state (.escape start))
      else
        pure (enter state (.string start))
  | .code =>
      if c = ';' then
        pure (enter state .comment)
      else if c = '"' then
        pure (enter state (.string state.offset))
      else
        match Delimiter.ofOpener? c, Delimiter.ofCloser? c with
        | some opener, _ => pure («open» state opener)
        | none, some closer => close state closer
        | none, none => pure (enter state .code)

/-- The fault of a text that ends in a state, if there is one. -/
def faultAtEnd? (state : State) : Option DelimiterFault :=
  match state.mode, state.opened with
  | .string start, _ => some (.unterminatedString start)
  | .escape start, _ => some (.unterminatedString start)
  | _, (opener, offset) :: _ => some (.unclosed offset opener)
  | _, [] => none

end Nesting

/-- The offsets of the opening parentheses of a text whose delimiters nest, or the
first fault. -/
def checkDelimiters (text : List Char) : Except DelimiterFault (List Nat) := do
  let final ← text.foldlM Nesting.step Nesting.start
  match Nesting.faultAtEnd? final with
  | some fault => throw fault
  | none => pure final.parens.reverse

end CueScript
