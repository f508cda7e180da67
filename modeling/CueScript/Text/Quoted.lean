import CueScript.Text.Printable

/-!
# Quoted text

A quoted text stands between apostrophes, or between double quotes when it holds
an apostrophe and no double quote.  The quote in use and the backslash are
written with a backslash before them; tab, line feed and carriage return have
letters of their own, and other characters without a shape are written as
hexadecimal code points of two, four or eight digits.
-/

namespace CueScript.Text

/-- The quote that surrounds a text. -/
def chooseQuote (text : List Char) : Char :=
  if '\'' ∈ text ∧ '"' ∉ text then '"' else '\''

/-- A number in lower-case hexadecimal, filled with zeros to a width. -/
def hexPadded (width n : Nat) : List Char :=
  let digits := Nat.toDigits 16 n
  List.replicate (width - digits.length) '0' ++ digits

/-- A character written by its code point. -/
def escapeCode (c : Char) : List Char :=
  let code := c.toNat
  if code < 0x100 then
    '\\' :: 'x' :: hexPadded 2 code
  else if code < 0x10000 then
    '\\' :: 'u' :: hexPadded 4 code
  else
    '\\' :: 'U' :: hexPadded 8 code

/-- A character inside a text quoted with `quote`. -/
def escapeChar (quote c : Char) : List Char :=
  if c = quote ∨ c = '\\' then
    ['\\', c]
  else if c = '\t' then
    ['\\', 't']
  else if c = '\n' then
    ['\\', 'n']
  else if c = '\r' then
    ['\\', 'r']
  else if isPrintable c then
    [c]
  else
    escapeCode c

/-- The quoted form of a text. -/
def quotedChars (text : List Char) : List Char :=
  let quote := chooseQuote text
  quote :: (text.flatMap (escapeChar quote) ++ [quote])

/-- The quoted form of a string. -/
def quoted (text : String) : String := String.ofList (quotedChars text.toList)

/-- A string with everything beyond ASCII written by its code point. -/
def asciiOnly (text : String) : String :=
  String.ofList <| text.toList.flatMap fun c =>
    if c.toNat < 0x80 then [c] else escapeCode c

end CueScript.Text
