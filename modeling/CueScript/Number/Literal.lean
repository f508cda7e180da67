import CueScript.Number.Binary64
import CueScript.Text.Blank
import CueScript.Text.Digit

/-!
# Number literals

An integer literal is an optional sign and decimal digits; a single underscore
may stand between two digits.  A number literal may also have a point, an
exponent, or be one of the words `inf`, `infinity` and `nan` in any case.  Blanks
around a literal do not count, and digits of every script do.

An integer of more than `Literal.maxDigits` digits is not taken as an integer; as
a number literal it is read like any other, so it is infinite.
-/

namespace CueScript.Literal

-- Powers are those of the core library, also beside a library that has powers of its own.
attribute [local instance (2000)] instPowNat

/-- The greatest number of digits an integer may be read or written with. -/
def maxDigits : Nat := 4300

/-- Take a sign off the front. -/
def takeSign : List Char → Bool × List Char
  | '-' :: rest => (true, rest)
  | '+' :: rest => (false, rest)
  | text => (false, text)

/-- A run of digits with single underscores between them. -/
structure DigitRun where
  value : Nat
  width : Nat
  rest : List Char

/-- Read on in a run of digits that has begun. -/
def digitsFrom (value width : Nat) : List Char → DigitRun
  | [] => ⟨value, width, []⟩
  | '_' :: c :: rest =>
      match Text.digitValue? c with
      | some digit => digitsFrom (10 * value + digit) (width + 1) rest
      | none => ⟨value, width, '_' :: c :: rest⟩
  | c :: rest =>
      match Text.digitValue? c with
      | some digit => digitsFrom (10 * value + digit) (width + 1) rest
      | none => ⟨value, width, c :: rest⟩

/-- The longest run of digits at the front; its width is zero if there is none. -/
def takeDigits : List Char → DigitRun
  | [] => ⟨0, 0, []⟩
  | c :: rest =>
      match Text.digitValue? c with
      | some digit => digitsFrom digit 1 rest
      | none => ⟨0, 0, c :: rest⟩

/-- The integer that a literal stands for. -/
def readInt? (text : List Char) : Option Int :=
  let (negative, body) := takeSign (Text.stripWhile Text.surroundsNumber text)
  let run := takeDigits body
  if run.width = 0 ∨ maxDigits < run.width ∨ run.rest ≠ [] then
    none
  else if negative then
    some (-(run.value : Int))
  else
    some run.value

/-- The words that name a number. -/
def wordValue? (negative : Bool) (text : List Char) : Option Binary64 :=
  let lower := text.map Char.toLower
  if lower = "inf".toList ∨ lower = "infinity".toList then
    some (.infinite negative)
  else if lower = "nan".toList then
    some .nan
  else
    none

/-- An exponent, or nothing at all. -/
def readExponent? : List Char → Option Int
  | [] => some 0
  | c :: rest =>
      if c = 'e' ∨ c = 'E' then
        let (negative, body) := takeSign rest
        let run := takeDigits body
        if run.width = 0 ∨ run.rest ≠ [] then
          none
        else if negative then
          some (-(run.value : Int))
        else
          some run.value
      else
        none

/-- The digits after a point, if there is one. -/
def takeFraction : List Char → DigitRun
  | '.' :: rest => takeDigits rest
  | text => ⟨0, 0, text⟩

/-- The double that a literal stands for. -/
def readNumber? (text : List Char) : Option Binary64 :=
  let (negative, body) := takeSign (Text.stripWhile Text.surroundsNumber text)
  match wordValue? negative body with
  | some x => some x
  | none =>
      let whole := takeDigits body
      let fraction := takeFraction whole.rest
      if whole.width + fraction.width = 0 then
        none
      else
        (readExponent? fraction.rest).map fun exponent =>
          Binary64.ofDecimal negative
            (whole.value * 10 ^ fraction.width + fraction.value)
            (whole.width + fraction.width)
            (exponent - fraction.width)

end CueScript.Literal
