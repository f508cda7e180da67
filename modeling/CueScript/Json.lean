import CueScript.Number.Literal
import CueScript.Value.Equality

/-!
# Values as JSON

`Json.parse?` turns a JSON text into a value: objects become maps with strings as
keys, arrays become lists, and numbers with a fraction or an exponent become
doubles.  `NaN`, always the same one, and the two infinities are accepted, too.  A
key that comes twice keeps its first place and its last value.

Reading a value takes it off the front of the text and leaves the rest.  The budget
is the length of the text, because each step takes at least one character.
-/

namespace CueScript

namespace Json

/-- Characters that may stand between the parts of a text. -/
def isSpace (c : Char) : Bool := c = ' ' || c = '\t' || c = '\n' || c = '\r'

/-- Skip characters between the parts of a text. -/
def skipSpace (text : List Char) : List Char := text.dropWhile isSpace

/-- Take an expected word off the front of a text. -/
def takeWord? : (word text : List Char) → Option (List Char)
  | [], text => some text
  | w :: word, c :: text => if w = c then takeWord? word text else none
  | _ :: _, [] => none

/-! ## Strings -/

/-- The value of a hexadecimal digit. -/
def hexDigit? (c : Char) : Option Nat :=
  if c.isDigit then some (c.toNat - '0'.toNat)
  else if 'a' ≤ c ∧ c ≤ 'f' then some (c.toNat - 'a'.toNat + 10)
  else if 'A' ≤ c ∧ c ≤ 'F' then some (c.toNat - 'A'.toNat + 10)
  else none

/-- The number that four hexadecimal digits spell. -/
def hexCode? (a b c d : Char) : Option Nat := do
  let x ← hexDigit? a
  let y ← hexDigit? b
  let z ← hexDigit? c
  let w ← hexDigit? d
  some (((x * 16 + y) * 16 + z) * 16 + w)

/-- The first half of a pair of codes that stand for one character. -/
def isHighHalf (code : Nat) : Bool := 0xD800 ≤ code && code ≤ 0xDBFF

/-- The second half of a pair of codes that stand for one character. -/
def isLowHalf (code : Nat) : Bool := 0xDC00 ≤ code && code ≤ 0xDFFF

/-- The character that the two halves of a pair stand for. -/
def joinHalves (high low : Nat) : Char :=
  Char.ofNat (0x10000 + (high - 0xD800) * 0x400 + (low - 0xDC00))

/-- The character for a code of its own; a lone half has none and is replaced. -/
def ofCode (code : Nat) : Char :=
  if isHighHalf code || isLowHalf code then '\ufffd' else Char.ofNat code

/-- The character that a backslash and a letter stand for. -/
def escaped? : Char → Option Char
  | '"' => some '"'
  | '\\' => some '\\'
  | '/' => some '/'
  | 'b' => some '\x08'
  | 'f' => some '\x0c'
  | 'n' => some '\n'
  | 'r' => some '\r'
  | 't' => some '\t'
  | _ => none

/-- Take the rest of a string off the front of a text, after its opening quote. -/
def takeString (reversed : List Char) : List Char → Option (String × List Char)
  | [] => none
  | '"' :: rest => some (String.ofList reversed.reverse, rest)
  | '\\' :: 'u' :: a :: b :: c :: d :: '\\' :: 'u' :: e :: f :: g :: h :: rest =>
      match hexCode? a b c d, hexCode? e f g h with
      | some first, some second =>
          if isHighHalf first && isLowHalf second then
            takeString (joinHalves first second :: reversed) rest
          else
            takeString (ofCode first :: reversed) ('\\' :: 'u' :: e :: f :: g :: h :: rest)
      | _, _ => none
  | '\\' :: 'u' :: a :: b :: c :: d :: rest =>
      match hexCode? a b c d with
      | some code => takeString (ofCode code :: reversed) rest
      | none => none
  | '\\' :: c :: rest =>
      match escaped? c with
      | some character => takeString (character :: reversed) rest
      | none => none
  | c :: rest => if c < ' ' then none else takeString (c :: reversed) rest
termination_by text => text.length

/-! ## Numbers -/

/-- Take the digits before the point off the front of a text: a single zero, or
digits that do not begin with one. -/
def takeWhole : List Char → Option (List Char × List Char)
  | '0' :: rest => some (['0'], rest)
  | c :: rest =>
      if c.isDigit then
        some (c :: rest.takeWhile Char.isDigit, rest.dropWhile Char.isDigit)
      else
        none
  | [] => none

/-- Take a point and digits off the front of a text, if they are there. -/
def takePoint : List Char → List Char × List Char
  | '.' :: c :: rest =>
      if c.isDigit then
        ('.' :: c :: rest.takeWhile Char.isDigit, rest.dropWhile Char.isDigit)
      else
        ([], '.' :: c :: rest)
  | text => ([], text)

/-- Take an exponent off the front of a text, if it is there. -/
def takeExponent (text : List Char) : List Char × List Char :=
  match text with
  | e :: rest =>
      if e = 'e' || e = 'E' then
        let (sign, digits) :=
          match rest with
          | '+' :: more => (['+'], more)
          | '-' :: more => (['-'], more)
          | _ => ([], rest)
        match digits.takeWhile Char.isDigit with
        | [] => ([], text)
        | run => (e :: sign ++ run, digits.dropWhile Char.isDigit)
      else
        ([], text)
  | [] => ([], text)

/-- Take a number off the front of a text. -/
def takeNumber (text : List Char) : Option (Value × List Char) := do
  let (sign, unsigned) :=
    match text with
    | '-' :: rest => (['-'], rest)
    | _ => ([], text)
  let (whole, afterWhole) ← takeWhole unsigned
  let (point, afterPoint) := takePoint afterWhole
  let (exponent, rest) := takeExponent afterPoint
  let spelled := sign ++ whole ++ point ++ exponent
  if point.isEmpty && exponent.isEmpty then
    let number ← Literal.readInt? spelled
    some (.int number, rest)
  else
    let number ← Literal.readNumber? spelled
    some (.float number 0, rest)

/-- Take a number or a word that stands for a value off the front of a text. -/
def takeAtom (text : List Char) : Option (Value × List Char) :=
  let words : List (String × Value) := [
    ("null", .nil), ("true", .bool true), ("false", .bool false),
    ("NaN", Value.commonNaN), ("Infinity", .float (.infinite false) 0),
    ("-Infinity", .float (.infinite true) 0)]
  let word := words.findSome? fun entry =>
    (takeWord? entry.1.toList text).map fun rest => (entry.2, rest)
  word <|> takeNumber text

/-! ## Arrays and objects -/

mutual

/-- Take a value off the front of a text. -/
def takeValue : (budget : Nat) → List Char → Option (Value × List Char)
  | 0, _ => none
  | budget + 1, text =>
      match text with
      | '"' :: rest => (takeString [] rest).map fun (string, rest) => (.str string, rest)
      | '[' :: rest =>
          match skipSpace rest with
          | ']' :: rest => some (.list [] 0, rest)
          | inside =>
              (takeItems budget inside).map fun (items, rest) => (.list items 0, rest)
      | '\x7b' :: rest =>
          match skipSpace rest with
          | '\x7d' :: rest => some (.map [] 0, rest)
          | inside =>
              (takeFields budget inside []).map fun (fields, rest) => (.map fields 0, rest)
      | _ => takeAtom text

/-- Take the items of an array off the front of a text, and the closing bracket. -/
def takeItems : (budget : Nat) → List Char → Option (List Value × List Char)
  | 0, _ => none
  | budget + 1, text => do
      let (item, rest) ← takeValue budget text
      match skipSpace rest with
      | ']' :: rest => some ([item], rest)
      | ',' :: rest =>
          let (items, rest) ← takeItems budget (skipSpace rest)
          some (item :: items, rest)
      | _ => none

/-- Take the fields of an object off the front of a text, and the closing brace. -/
def takeFields : (budget : Nat) → List Char → ValueEntries →
    Option (ValueEntries × List Char)
  | 0, _, _ => none
  | budget + 1, text, built =>
      match text with
      | '"' :: rest => do
          let (key, rest) ← takeString [] rest
          match skipSpace rest with
          | ':' :: rest =>
              let (value, rest) ← takeValue budget (skipSpace rest)
              let next := Entries.put Value.sameKey (.str key) value built
              match skipSpace rest with
              | '\x7d' :: rest => some (next, rest)
              | ',' :: rest => takeFields budget (skipSpace rest) next
              | _ => none
          | _ => none
      | _ => none

end

/-- The value that a text spells, if it is JSON. -/
def parse? (text : List Char) : Option Value := do
  let (value, rest) ← takeValue (text.length + 1) (skipSpace text)
  if (skipSpace rest).isEmpty then some value else none

end Json

end CueScript
