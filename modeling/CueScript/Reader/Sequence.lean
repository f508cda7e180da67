import CueScript.Number.Literal
import CueScript.Reader.Delimiter
import CueScript.Text.Quoted
import CueScript.Value

/-!
# From text to trees

A text is read character by character.  `Sequence.step` keeps the sequence under
way, the sequences around it, and the token that has begun.  Blanks, delimiters,
quotes and comments end a token, which becomes an integer, a number or a symbol.

An apostrophe quotes the form that follows it in the same sequence; a sequence
that ends right after an apostrophe is at fault.  A backslash in a token takes the
next character out of its role.
-/

namespace CueScript

/-- Why a text cannot be read. -/
inductive SequenceFault where
  /-- No form follows the apostrophe at this offset. -/
  | nothingQuoted (offset : Nat)
  /-- A sequence is ended by the wrong character, or by the end of the text. -/
  | missingCloser (expected : Delimiter) (got : Option Char)
  /-- A closing delimiter ends the text early; the text shows what is left. -/
  | leftover (rest : String)
  /-- The text ends inside a string, not after a backslash. -/
  | openString
  /-- The text ends after a backslash. -/
  | openEscape
  deriving DecidableEq, Repr

namespace SequenceFault

/-- The wording of a fault. -/
def text : SequenceFault → String
  | nothingQuoted offset =>
      s!"No s-exp is found after an apostrophe at position {offset}"
  | missingCloser expected got =>
      "Not enough closing brackets. Expected " ++ Text.quoted expected.closer.toString ++
        " to be the last letter in the sexp. Got: " ++
        (match got with
        | some c => Text.quoted c.toString
        | none => "None")
  | leftover rest =>
      "Too many closing brackets. Expected no character left in the sexp. Got: " ++
        Text.quoted rest
  | openString => "'NoneType' object has no attribute 'start'"
  | openEscape => "string index out of range"

/-- The class of a fault. -/
def className : SequenceFault → String
  | nothingQuoted _ => "ExpectSExp"
  | missingCloser .. => "ExpectClosingBracket"
  | leftover _ => "ExpectNothing"
  | openString => "AttributeError"
  | openEscape => "IndexError"

end SequenceFault

/-- The value of a token: an integer, a number, or else a symbol. -/
def tokenValue (token : List Char) : Value :=
  match Literal.readInt? token with
  | some number => .int number
  | none =>
      match Literal.readNumber? token with
      | some number => .float number 0
      | none => .symbol (String.ofList token)

/-- The character that a pair of backslash and character stands for in a string. -/
def unescapeInString (c : Char) : List Char :=
  match c with
  | '\\' => ['\\']
  | '"' => ['"']
  | 'b' => ['\x08']
  | 'f' => ['\x0c']
  | 'n' => ['\n']
  | 'r' => ['\r']
  | 't' => ['\t']
  | _ => ['\\', c]

/-- The characters that a backslash takes out of their role in a token. -/
def tokenSpecials : List Char :=
  ['\\', '\'', '`', '"', '(', ')', '[', ']', ' ', ',', '?', ';', '#']

/-- The characters that a pair of backslash and character stands for in a token. -/
def unescapeInToken (c : Char) : List Char :=
  if c ∈ tokenSpecials then [c] else ['\\', c]

namespace Sequence

/-- What the next character belongs to; tokens and strings hold their characters
so far, last first. -/
inductive Mode where
  | between
  | comment
  | string (reversed : List Char)
  | stringEscape (reversed : List Char)
  | token (reversed : List Char)
  | tokenEscape (reversed : List Char)
  deriving DecidableEq, Repr

/-- A sequence under way: its items so far, last first, and the offsets of the
apostrophes that wait for a form, last first. -/
structure Level where
  reversed : List Value
  quotes : List Nat

/-- The state after part of a text: the offset of the next character, its mode, the
innermost sequence, and the delimiters and sequences around it. -/
structure State where
  offset : Nat
  mode : Mode
  level : Level
  outer : List (Delimiter × Level)

/-- An empty sequence. -/
def Level.empty : Level := ⟨[], []⟩

/-- Put a form at the end of a sequence, under all the apostrophes that wait. -/
def Level.push (level : Level) (form : Value) : Level :=
  let quoted := level.quotes.foldl (fun inner _ => Value.quoted inner) form
  ⟨quoted :: level.reversed, []⟩

/-- The items of a sequence that ends here. -/
def Level.items (level : Level) : Except SequenceFault (List Value) :=
  match level.quotes with
  | offset :: _ => throw (.nothingQuoted offset)
  | [] => pure level.reversed.reverse

/-- The form that a delimited sequence stands for. -/
def delimited (delimiter : Delimiter) (items : List Value) : Value :=
  match delimiter with
  | .paren => .list items 0
  | .bracket => .vector items 0

/-- The state before the first character. -/
def start : State := ⟨0, .between, .empty, []⟩

/-- Go on to the next character in some mode. -/
def enter (state : State) (mode : Mode) : State :=
  { state with offset := state.offset + 1, mode := mode }

/-- Put a form at the end of the innermost sequence. -/
def push (state : State) (form : Value) : State :=
  { state with level := state.level.push form }

/-- End the token or string under way. -/
def finishToken (state : State) : State :=
  match state.mode with
  | .token reversed => { push state (tokenValue reversed.reverse) with mode := .between }
  | _ => state

/-- End the innermost sequence with a closing character; `rest` is the text from
there on. -/
def close (state : State) (closer : Delimiter) (rest : List Char) :
    Except SequenceFault State := do
  let items ← state.level.items
  match state.outer with
  | [] => throw (.leftover (String.ofList rest))
  | (opener, level) :: outer =>
      if opener = closer then
        pure
          { offset := state.offset + 1
            mode := .between
            level := level.push (delimited opener items)
            outer := outer }
      else
        throw (.missingCloser opener (some closer.closer))

/-- Follow a character between tokens; `rest` is the text from it on. -/
def stepBetween (state : State) (c : Char) (rest : List Char) :
    Except SequenceFault State :=
  if Text.isAsciiBlank c then
    pure (enter state .between)
  else if c = '"' then
    pure (enter state (.string []))
  else if c = ';' then
    pure (enter state .comment)
  else if c = '\'' then
    let level := { state.level with quotes := state.offset :: state.level.quotes }
    pure (enter { state with level := level } .between)
  else if c = '\\' then
    pure (enter state (.tokenEscape []))
  else
    match Delimiter.ofOpener? c, Delimiter.ofCloser? c with
    | some opener, _ =>
        pure
          { offset := state.offset + 1
            mode := .between
            level := .empty
            outer := (opener, state.level) :: state.outer }
    | none, some closer => close state closer rest
    | none, none => pure (enter state (.token [c]))

/-- Whether a character ends a token. -/
def endsToken (c : Char) : Bool :=
  Text.isAsciiBlank c || c == '"' || c == ';' ||
    (Delimiter.ofOpener? c).isSome || (Delimiter.ofCloser? c).isSome

/-- Follow one character; `rest` is the text from it on. -/
def step (state : State) (c : Char) (rest : List Char) : Except SequenceFault State :=
  match state.mode with
  | .between => stepBetween state c rest
  | .comment => pure (enter state (if c = '\n' then .between else .comment))
  | .string reversed =>
      if c = '"' then
        pure (enter (push state (.str (String.ofList reversed.reverse))) .between)
      else if c = '\\' then
        pure (enter state (.stringEscape reversed))
      else
        pure (enter state (.string (c :: reversed)))
  | .stringEscape reversed =>
      pure (enter state (.string ((unescapeInString c).reverse ++ reversed)))
  | .token reversed =>
      if endsToken c then
        stepBetween (finishToken state) c rest
      else if c = '\\' then
        pure (enter state (.tokenEscape reversed))
      else
        pure (enter state (.token (c :: reversed)))
  | .tokenEscape reversed =>
      pure (enter state (.token ((unescapeInToken c).reverse ++ reversed)))

/-- Follow a text from some state. -/
def run (state : State) : List Char → Except SequenceFault State
  | [] => pure state
  | c :: rest => do
      let next ← step state c (c :: rest)
      run next rest

/-- The forms of a text that ends in a state. -/
def finish (state : State) : Except SequenceFault (List Value) := do
  match state.mode with
  | .string _ => throw .openString
  | .stringEscape _ => throw .openEscape
  | .tokenEscape _ => throw .openEscape
  | _ => pure ()
  let items ← (finishToken state).level.items
  match state.outer with
  | [] => pure items
  | (opener, _) :: _ => throw (.missingCloser opener none)

end Sequence

/-- The forms of a text. -/
def readSequence (text : List Char) : Except SequenceFault (List Value) := do
  let final ← Sequence.run Sequence.start text
  Sequence.finish final

end CueScript
