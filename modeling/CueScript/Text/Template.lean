import CueScript.Failure
import CueScript.Number.Decimal
import CueScript.Number.Numeric
import CueScript.Text.Quoted
import CueScript.Value.Map
import CueScript.Value.Render

/-!
# Templates

A template is a text with conversions such as `%s`, `%-8.3f` or `%(name)d`.  A
conversion has an optional name in parentheses, flags, a least width, a precision
and a letter; a star in place of the width or precision takes it from the next
argument.  `Template.fill` writes the arguments into the template.

Conversions without a name take the arguments one after the other.  A name takes
the value under that name in the map that is the only argument.  Without a map,
every argument has to be used.
-/

namespace CueScript

namespace Template

-- Powers are those of the core library, also beside a library that has powers of its own.
attribute [local instance (2000)] instPowNat

/-- The texts of values that a template needs. -/
structure Texts where
  display : Value → Except Failure String
  shown : Value → Except Failure String

/-- The arguments that are left, and the map for conversions with a name. -/
structure Arguments where
  remaining : List Value
  named : Option Value

/-- The flags of a conversion. -/
structure Flags where
  left : Bool := false
  plus : Bool := false
  space : Bool := false
  alternate : Bool := false
  zero : Bool := false
  deriving Repr, DecidableEq

/-- A conversion without its name. -/
structure Conversion where
  flags : Flags
  width : Nat
  precision : Option Nat
  letter : Char
  deriving Repr, DecidableEq

/-- The greatest width. -/
def maxWidth : Nat := 2 ^ (63 : Nat) - 1

/-- The greatest width that memory allows. -/
def widthInMemory : Nat := 2 ^ (34 : Nat)

/-- The greatest precision. -/
def maxPrecision : Nat := 2 ^ (31 : Nat) - 1

/-! ## Layout of a converted argument -/

/-- A converted argument: its sign, what stands between the sign and the digits,
and the rest. -/
structure Piece where
  sign : String
  lead : String
  body : String

/-- The sign of a number under the flags. -/
def signText (flags : Flags) (negative : Bool) : String :=
  if negative then "-" else if flags.plus then "+" else if flags.space then " " else ""

/-- Some number of one character. -/
def repeated (c : Char) (count : Nat) : String := String.ofList (List.replicate count c)

/-- Fill a number up to the width: with zeros after the sign, or with spaces before
or after it. -/
def layNumber (conversion : Conversion) (piece : Piece) : String :=
  let text := piece.sign ++ piece.lead ++ piece.body
  let missing := conversion.width - text.length
  if conversion.flags.left then
    text ++ repeated ' ' missing
  else if conversion.flags.zero then
    piece.sign ++ piece.lead ++ repeated '0' missing ++ piece.body
  else
    repeated ' ' missing ++ text

/-- Fill a text up to the width with spaces. -/
def layText (conversion : Conversion) (text : String) : String :=
  let missing := conversion.width - text.length
  if conversion.flags.left then
    text ++ repeated ' ' missing
  else
    repeated ' ' missing ++ text

/-! ## Integers -/

/-- The integer that an argument is converted to.  A number with a fraction is cut
toward zero, but only for decimal conversions. -/
def integerOf (decimal : Bool) (value : Value) : Except Failure Int :=
  match value.toNumeric? with
  | some (.int number) => pure number
  | some (.float number) =>
      if decimal then
        match number.truncate?, number with
        | some whole, _ => pure whole
        | none, .nan => throw .badValue
        | none, _ => throw .tooLarge
      else
        throw .wrongType
  | none => throw .wrongType

/-- The digits of a natural number in a base. -/
def digitsIn (base n : Nat) : String := String.ofList (Nat.toDigits base n)

/-- A converted integer. -/
def integerPiece (conversion : Conversion) (value : Value) : Except Failure Piece := do
  let letter := conversion.letter
  let decimal := letter == 'd' || letter == 'i' || letter == 'u'
  let number ← integerOf decimal value
  let magnitude := number.natAbs
  let digits ←
    if decimal then
      integerText magnitude
    else if letter = 'o' then
      pure (digitsIn 8 magnitude)
    else if letter = 'X' then
      pure ((digitsIn 16 magnitude).map Char.toUpper)
    else
      pure (digitsIn 16 magnitude)
  let lead :=
    if conversion.flags.alternate then
      if letter = 'o' then "0o" else if letter = 'x' then "0x" else if letter = 'X' then "0X"
      else ""
    else
      ""
  let missing := conversion.precision.getD 0 - digits.length
  pure
    { sign := signText conversion.flags (number < 0)
      lead := lead
      body := repeated '0' missing ++ digits }

/-! ## Numbers with a fraction -/

/-- Digits with a point after some of them. -/
def withPoint (digits : List Char) (places : Nat) (alternate : Bool) : String :=
  let padded := List.replicate (places + 1 - digits.length) '0' ++ digits
  let whole := padded.take (padded.length - places)
  let fraction := padded.drop (padded.length - places)
  if fraction.isEmpty then
    String.ofList whole ++ (if alternate then "." else "")
  else
    String.ofList whole ++ "." ++ String.ofList fraction

/-- A fraction with a fixed number of places. -/
def fixedText (num den places : Nat) (alternate : Bool) : String :=
  withPoint (decimalDigits (Decimal.fixedDigits num den places)) places alternate

/-- Digits with an exponent: one digit before the point. -/
def exponentLayout (number : Decimal.Digits) (alternate : Bool) : String :=
  withPoint number.digits (number.digits.length - 1) alternate ++ "e" ++
    Decimal.exponentText number.power

/-- A fraction with a number of significant digits, positional or with an exponent,
without zeros at the end unless they are asked for. -/
def generalText (num den count : Nat) (alternate : Bool) : String :=
  let count := max count 1
  let number := Decimal.significantDigits num den count
  let digits :=
    if alternate then number.digits else Decimal.dropTrailingZeros number.digits
  if Decimal.firstPositional ≤ number.power ∧ number.power < count then
    if number.power < 0 then
      let zeros := List.replicate (-number.power).toNat '0'
      withPoint (zeros ++ digits) (digits.length + (-number.power - 1).toNat) alternate
    else
      let whole := number.power.toNat + 1
      let padded := digits ++ List.replicate (whole - digits.length) '0'
      withPoint padded (padded.length - whole) alternate
  else
    exponentLayout { number with digits } alternate

/-- A converted number with a fraction. -/
def fractionPiece (conversion : Conversion) (value : Value) : Except Failure Piece := do
  let number ←
    match value.toNumeric? with
    | some numeric =>
        match numeric.toDouble? with
        | some number => pure number
        | none => throw .tooLarge
    | none => throw .wrongType
  let precision := conversion.precision.getD 6
  let letter := conversion.letter.toLower
  let alternate := conversion.flags.alternate
  let body :=
    match number with
    | .nan => "nan"
    | .infinite _ => "inf"
    | .finite .. =>
        match number.abs.toFraction? with
        | some (num, den) =>
            if letter = 'f' then
              fixedText num.natAbs den precision alternate
            else if letter = 'e' then
              exponentLayout (Decimal.significantDigits num.natAbs den (precision + 1))
                alternate
            else
              generalText num.natAbs den precision alternate
        | none => ""
  let body := if conversion.letter.isUpper then body.map Char.toUpper else body
  pure { sign := signText conversion.flags number.isNegative, lead := "", body := body }

/-! ## Conversion of one argument -/

/-- The character that an argument stands for. -/
def characterOf (value : Value) : Except Failure String :=
  match value.toText?, value.toInt? with
  | some text, _ => if text.length = 1 then pure text else throw .wrongType
  | none, some code =>
      if code < 0 ∨ 0x110000 ≤ code then
        throw .tooLarge
      else
        pure (Char.ofNat code.toNat).toString
  | none, none => throw .wrongType

/-- Cut a text to the precision. -/
def cut (precision : Option Nat) (text : String) : String :=
  match precision with
  | some count => String.ofList (text.toList.take count)
  | none => text

/-- Fill what is to be written up to the width, if memory allows it. -/
def layOut (conversion : Conversion) (lay : Unit → String) : Except Failure String :=
  if widthInMemory < conversion.width then throw .outOfMemory else pure (lay ())

/-- Convert one argument. -/
def convert (texts : Texts) (conversion : Conversion) (value : Value) :
    Except Failure String := do
  let letter := conversion.letter
  if letter = 's' then
    let text ← texts.display value
    layOut conversion fun _ => layText conversion (cut conversion.precision text)
  else if letter = 'r' then
    let text ← texts.shown value
    layOut conversion fun _ => layText conversion (cut conversion.precision text)
  else if letter = 'a' then
    let text ← texts.shown value
    layOut conversion fun _ =>
      layText conversion (cut conversion.precision (Text.asciiOnly text))
  else if letter = 'c' then
    let text ← characterOf value
    layOut conversion fun _ => layText conversion text
  else if letter ∈ ['d', 'i', 'u', 'o', 'x', 'X'] then
    let piece ← integerPiece conversion value
    layOut conversion fun _ => layNumber conversion piece
  else if letter ∈ ['e', 'E', 'f', 'F', 'g', 'G'] then
    let piece ← fractionPiece conversion value
    layOut conversion fun _ => layNumber conversion piece
  else
    throw .badValue

/-! ## Reading a conversion -/

/-- Take the next argument. -/
def Arguments.next (arguments : Arguments) : Except Failure (Value × Arguments) :=
  match arguments.remaining with
  | [] => throw .wrongType
  | value :: rest => pure (value, { arguments with remaining := rest })

/-- The name of a conversion: the text up to the parenthesis that closes it.
`depth` counts the parentheses open inside the name. -/
def takeName (depth : Nat) (reversed : List Char) :
    List Char → Except Failure (String × List Char)
  | [] => throw .badValue
  | c :: rest =>
      if c = ')' then
        if depth = 0 then
          pure (String.ofList reversed.reverse, rest)
        else
          takeName (depth - 1) (c :: reversed) rest
      else
        takeName (if c = '(' then depth + 1 else depth) (c :: reversed) rest

/-- Take the value under a name as the only argument left. -/
def Arguments.select (arguments : Arguments) (name : String) :
    Except Failure Arguments :=
  match arguments.named with
  | some (.map entries _) => do
      match ← ValueEntries.get? entries (.str name) with
      | some value => pure { arguments with remaining := [value] }
      | none => throw .noKey
  | _ => throw .wrongType

/-- Take flags off the front. -/
def takeFlags (flags : Flags) : List Char → Flags × List Char
  | '-' :: rest => takeFlags { flags with left := true } rest
  | '+' :: rest => takeFlags { flags with plus := true } rest
  | ' ' :: rest => takeFlags { flags with space := true } rest
  | '#' :: rest => takeFlags { flags with alternate := true } rest
  | '0' :: rest => takeFlags { flags with zero := true } rest
  | text => (flags, text)

/-- Take a number off the front that must not exceed a bound. -/
def takeCount (bound value : Nat) : List Char → Except Failure (Nat × List Char)
  | [] => pure (value, [])
  | c :: rest =>
      if '0' ≤ c ∧ c ≤ '9' then
        let next := 10 * value + (c.toNat - 0x30)
        if bound < next then throw .badValue else takeCount bound next rest
      else
        pure (value, c :: rest)

/-- The integer that a star takes from the arguments. -/
def starCount (bound : Nat) (arguments : Arguments) :
    Except Failure (Int × Arguments) := do
  let (value, arguments) ← arguments.next
  match value.toInt? with
  | some count =>
      if (bound : Int) < count ∨ count < -(bound : Int) - 1 then
        throw .tooLarge
      else
        pure (count, arguments)
  | none => throw .wrongType

/-- Take the width; a negative one from an argument also flushes left. -/
def takeWidth (flags : Flags) (text : List Char) (arguments : Arguments) :
    Except Failure (Flags × Nat × List Char × Arguments) :=
  match text with
  | '*' :: rest => do
      let (count, arguments) ← starCount maxWidth arguments
      if count < 0 then
        pure ({ flags with left := true }, count.natAbs, rest, arguments)
      else
        pure (flags, count.toNat, rest, arguments)
  | _ => do
      let (width, rest) ← takeCount maxWidth 0 text
      pure (flags, width, rest, arguments)

/-- Take the precision, if there is a point; a negative one from an argument counts
as zero. -/
def takePrecision (text : List Char) (arguments : Arguments) :
    Except Failure (Option Nat × List Char × Arguments) :=
  match text with
  | '.' :: '*' :: rest => do
      let (count, arguments) ← starCount maxPrecision arguments
      pure (some count.toNat, rest, arguments)
  | '.' :: rest => do
      let (count, rest) ← takeCount maxPrecision 0 rest
      pure (some count, rest, arguments)
  | _ => pure (none, text, arguments)

/-- Skip a letter that gives a size. -/
def skipSize : List Char → List Char
  | 'h' :: rest => rest
  | 'l' :: rest => rest
  | 'L' :: rest => rest
  | text => text

/-- Take a conversion, its name included, off the text after a percent sign. -/
def takeConversion (text : List Char) (arguments : Arguments) :
    Except Failure (Conversion × List Char × Arguments) := do
  let (text, arguments) ←
    match text with
    | '(' :: rest =>
        match arguments.named with
        | none => throw .wrongType
        | some _ => do
            let (name, rest) ← takeName 0 [] rest
            let arguments ← arguments.select name
            pure (rest, arguments)
    | _ => pure (text, arguments)
  let (flags, text) := takeFlags {} text
  let (flags, width, text, arguments) ← takeWidth flags text arguments
  let (precision, text, arguments) ← takePrecision text arguments
  match skipSize text with
  | [] => throw .badValue
  | letter :: rest => pure (⟨flags, width, precision, letter⟩, rest, arguments)

/-! ## Filling a template -/

/-- Write the arguments into a template.  Each round deals with one character or
one conversion; the budget is the length of the text. -/
def fillWithin (texts : Texts) : (budget : Nat) → List Char → Arguments →
    Except Failure (List String × Arguments)
  | _, [], arguments => pure ([], arguments)
  | 0, _ :: _, _ => throw .badValue
  | budget + 1, c :: rest, arguments =>
      if c = '%' then
        match rest with
        | '%' :: rest => do
            let (parts, arguments) ← fillWithin texts budget rest arguments
            pure ("%" :: parts, arguments)
        | _ => do
            let (conversion, rest, arguments) ← takeConversion rest arguments
            let (value, arguments) ← arguments.next
            let part ← convert texts conversion value
            let (parts, arguments) ← fillWithin texts budget rest arguments
            pure (part :: parts, arguments)
      else do
        let (parts, arguments) ← fillWithin texts budget rest arguments
        pure (c.toString :: parts, arguments)

/-- The arguments that a value stands for: a tuple for its items, anything else for
itself.  A map or a list can be looked up by name. -/
def Arguments.ofValue (value : Value) : Arguments :=
  match value.toTuple?, value with
  | some items, _ => ⟨items, none⟩
  | none, .map .. => ⟨[value], some value⟩
  | none, .list .. => ⟨[value], some value⟩
  | none, _ => ⟨[value], none⟩

/-- Fill a template; all arguments have to be used, unless they can be looked up by
name. -/
def fill (texts : Texts) (template : String) (arguments : Arguments) :
    Except Failure String := do
  let characters := template.toList
  let (parts, left) ← fillWithin texts characters.length characters arguments
  if left.named.isNone && !left.remaining.isEmpty then
    throw .wrongType
  else
    pure (String.join parts)

end Template

end CueScript
