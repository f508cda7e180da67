/-!
# Places in a text

A span names a file and the lines and columns at which it starts and ends.  Lines
and columns count from 1; 0 means that a place is not known.  `Span.atOffset`
finds the place of a character: its line is one more than the number of line
feeds before it, its column the distance from the last of them.
-/

namespace CueScript

/-- A stretch of text in a file. -/
structure Span where
  file : String
  line : Int
  column : Int
  endLine : Int
  endColumn : Int
  deriving DecidableEq, Repr

namespace Span

/-- A span; an end that is not given is the start. -/
def make (file : String) (line column endLine endColumn : Int) : Span :=
  { file := file
    line := line
    column := column
    endLine := if endLine = 0 then line else endLine
    endColumn := if endColumn = 0 then column else endColumn }

/-- A span of one character. -/
def point (file : String) (line column : Int) : Span := make file line column 0 0

/-- A file without a known place in it. -/
def inFile (file : String) : Span := point file 0 0

/-- No known place. -/
def unknown : Span := inFile ""

instance : Inhabited Span := ⟨unknown⟩

/-- The line of a position, given what stands before it. -/
def lineAfter (before : List Char) : Nat := before.count '\n' + 1

/-- The column of a position, given what stands before it. -/
def columnAfter (before : List Char) : Nat :=
  (before.reverse.takeWhile (· != '\n')).length + 1

/-- The place of the character at an offset; an offset outside the text is taken
to its nearest end. -/
def atOffset (text : List Char) (offset : Int) (file : String) : Span :=
  let before := text.take offset.toNat
  point file (lineAfter before) (columnAfter before)

/-- The text of a span: the parts that are known, with colons between them. -/
def text (span : Span) : String :=
  if span.file.isEmpty ∧ span.line = 0 then
    "<unknown location>"
  else
    let file := if span.file.isEmpty then [] else [span.file]
    let line := if 0 < span.line then [toString span.line] else []
    let column := if 0 < span.line ∧ 0 < span.column then [toString span.column] else []
    String.intercalate ":" (file ++ line ++ column)

end Span

end CueScript
