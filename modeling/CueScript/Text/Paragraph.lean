import CueScript.Text.Blank

/-!
# Paragraphs

`Text.paragraph` breaks a text into lines of a greatest width.  A line can end at
blanks and after a hyphen between two words, that is, with two letters, or a letter
of its own, before the hyphen and a word after it.  Pieces that are too long stand
on a line of their own.
-/

namespace CueScript

namespace Text

/-- A piece of a line: blanks, or characters that stay together. -/
structure Piece where
  blank : Bool
  chars : List Char
  deriving DecidableEq, Repr

/-- Whether a line can end after a hyphen, given what stands before the hyphen, in
reverse, and what stands after it. -/
def breaksAtHyphen (before after : List Char) : Bool :=
  let wordBefore :=
    match before with
    | b :: a :: rest =>
        b.isAlpha && (a.isAlpha || (a == '-' && (rest.head?.map Char.isAlpha).getD false))
    | _ => false
  let wordAfter :=
    match after with
    | a :: b :: rest =>
        a.isAlpha && (b.isAlpha || (b == '-' && (rest.head?.map Char.isAlpha).getD false))
    | _ => false
  wordBefore && wordAfter

/-- The pieces of a text.  `before` is what stands before the text and `current` the
piece that has begun, both in reverse. -/
def piecesFrom (before current : List Char) : List Char → List Piece
  | [] => if current.isEmpty then [] else [⟨isBlankPiece current, current.reverse⟩]
  | c :: rest =>
      let begun : List Piece := [⟨isBlankPiece current, current.reverse⟩]
      if current.isEmpty then
        piecesFrom (c :: before) [c] rest
      else if isBlank c != isBlankPiece current then
        begun ++ piecesFrom (c :: before) [c] rest
      else if c = '-' && breaksAtHyphen before rest then
        ⟨false, (c :: current).reverse⟩ :: piecesFrom (c :: before) [] rest
      else
        piecesFrom (c :: before) (c :: current) rest
where
  /-- Whether a piece that has begun is made of blanks. -/
  isBlankPiece (piece : List Char) : Bool := (piece.head?.map isBlank).getD false

/-- The pieces of a text. -/
def pieces (text : List Char) : List Piece := piecesFrom [] [] text

/-- The text of a line from its pieces, in reverse; blanks at its end are left out. -/
def lineOf (reversed : List Piece) : List Char :=
  let kept :=
    match reversed with
    | last :: rest => if last.blank then rest else reversed
    | [] => []
  kept.reverse.flatMap Piece.chars

/-- Lay pieces out in lines, given the pieces of the line that has begun, in reverse,
and its length.  Blanks at the start of a line are left out. -/
def layPieces (width : Nat) (line : List Piece) (length : Nat) :
    List Piece → List (List Char)
  | [] => if line.isEmpty then [] else [lineOf line]
  | piece :: rest =>
      if line.isEmpty && piece.blank then
        layPieces width [] 0 rest
      else if line.isEmpty || length + piece.chars.length ≤ width then
        layPieces width (piece :: line) (length + piece.chars.length) rest
      else if piece.blank then
        lineOf line :: layPieces width [] 0 rest
      else
        lineOf line :: layPieces width [piece] piece.chars.length rest

/-- The lines of a text, none longer than a width if its pieces allow it. -/
def paragraph (width : Nat) (text : List Char) : List (List Char) :=
  layPieces width [] 0 (pieces text)

end Text

end CueScript
