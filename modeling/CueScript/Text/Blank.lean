/-!
# Blank characters and lines

Three notions of blank are in use.  `isBlank` is Unicode white space; texts are
stripped of it.  `isAsciiBlank` is the six ASCII characters that separate
tokens.  `endsLine` holds of the characters that end a line when a text is split
into lines; only the line feed counts when lines are numbered.
-/

namespace CueScript.Text

/-- Unicode white space, with the four ASCII information separators. -/
def isBlank (c : Char) : Bool :=
  let code := c.toNat
  (0x09 ≤ code && code ≤ 0x0d) || (0x1c ≤ code && code ≤ 0x20) || code == 0x85 ||
    code == 0xa0 || code == 0x1680 || (0x2000 ≤ code && code ≤ 0x200a) ||
    code == 0x2028 || code == 0x2029 || code == 0x202f || code == 0x205f ||
    code == 0x3000

/-- Space, tab, line feed, vertical tab, form feed and carriage return. -/
def isAsciiBlank (c : Char) : Bool :=
  let code := c.toNat
  (0x09 ≤ code && code ≤ 0x0d) || code == 0x20

/-- The blanks that may surround a number: the ASCII ones and those beyond
ASCII. -/
def surroundsNumber (c : Char) : Bool :=
  isAsciiBlank c || (0x7f < c.toNat && isBlank c)

/-- Drop the characters at both ends that satisfy a test. -/
def stripWhile (drop : Char → Bool) (text : List Char) : List Char :=
  ((text.dropWhile drop).reverse.dropWhile drop).reverse

/-- Drop the blanks at both ends. -/
def strip (text : List Char) : List Char := stripWhile isBlank text

/-- The characters at which a text is split into lines. -/
def endsLine (c : Char) : Bool :=
  let code := c.toNat
  (0x0a ≤ code && code ≤ 0x0d) || (0x1c ≤ code && code ≤ 0x1e) || code == 0x85 ||
    code == 0x2028 || code == 0x2029

/-- Split a text into lines, `current` holding the reversed start of the line
under way.  A carriage return with a line feed after it ends one line, and what
follows the last end is a line only if it is not empty. -/
def linesFrom (current : List Char) : List Char → List (List Char)
  | [] => if current.isEmpty then [] else [current.reverse]
  | '\r' :: '\n' :: rest => current.reverse :: linesFrom [] rest
  | c :: rest =>
      if endsLine c then
        current.reverse :: linesFrom [] rest
      else
        linesFrom (c :: current) rest

/-- The lines of a text, without their ends. -/
def lines (text : List Char) : List (List Char) := linesFrom [] text

end CueScript.Text
