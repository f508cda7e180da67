import CueScript.Failure
import CueScript.Number.Decimal
import CueScript.Number.Literal
import CueScript.Text.Quoted
import CueScript.Value

/-!
# Text of values

A value has three texts.  `Value.shown` tells values of different types apart:
strings are quoted, maps are written with braces.  `Value.source` is the text of a
tree as the reader accepts it.  `Value.display` is the text for people: a string
is its own text.

A store is shown with its contents, which only the caller knows; `showStore` gives
the text of the store with a number.  A list or map inside itself is shown as three
dots; `Enclosure` tells what a value is inside of.  Showing an integer of too many
digits fails.
-/

namespace CueScript

/-- The text of an integer, if it does not have too many digits. -/
def integerText (n : Int) : Except Failure String :=
  if Literal.maxDigits < (decimalDigits n.natAbs).length then
    throw .badValue
  else
    pure (decimalText n)

/-- What something is shown inside of: a list or map with a number, or a store. -/
inductive Enclosure where
  | value (birth : Nat)
  | store (id : Nat)
  deriving DecidableEq, Repr

namespace Enclosure

/-- Whether something is a store. -/
def isStore : Enclosure → Bool
  | value _ => false
  | store _ => true

end Enclosure

namespace EventKind

/-- The text that shows an event kind as a value. -/
def shown (kind : EventKind) : String :=
  "<EventTypeTag." ++ kind.constantName ++ ": " ++ Text.quoted kind.tag ++ ">"

/-- The text of an event kind for people. -/
def display (kind : EventKind) : String := "EventTypeTag." ++ kind.constantName

end EventKind

namespace Value

/-- Join texts with a separator. -/
def joinTexts (separator : String) (texts : List String) : String :=
  String.intercalate separator texts

/-- The text of a tuple from the texts of its items; a single item keeps a comma. -/
def tupleText : List String → String
  | [item] => "(" ++ item ++ ",)"
  | items => "(" ++ joinTexts ", " items ++ ")"

/-- The text that shows a built-in function. -/
def builtinText (function : Builtin) : String :=
  match function with
  | .maximum | .minimum | .absolute => "<built-in function " ++ function.shownName ++ ">"
  | _ => "<function " ++ function.shownName ++ ">"

/-- The text of a closure: its name and parameters, without the rest parameter. -/
def closureText (name : String) (params : List String) : String :=
  "<Closure " ++ name ++ " [" ++ joinTexts " " params ++ "]>"

/-- The text that shows settings. -/
def configText (config : Config) : Except Failure String := do
  let depth ← integerText config.maxDepth
  let flag := if config.logTracebacks then "True" else "False"
  pure ("ExpressionConfig(max_depth=" ++ depth ++ ", filename=" ++
    Text.quoted config.filename ++ ", log_tracebacks=" ++ flag ++ ")")

/-- The tag that an event record's text mentions. -/
def kindTag : List (String × Value) → Except Failure String
  | [] => throw .noAttribute
  | (name, value) :: rest =>
      if name = "event_type" then
        match value with
        | .kind eventKind => pure eventKind.tag
        | _ => throw .noAttribute
      else
        kindTag rest

/-- The fields of an event's text, sorted by name. -/
def fieldsText (fields : List (String × String)) : String :=
  let listed := fields.filter fun field => field.1 != "event_type"
  let sorted := listed.mergeSort fun a b => decide (a.1 ≤ b.1)
  joinTexts ", " (sorted.map fun field => field.1 ++ "=" ++ field.2)

/-- Whether a list or map is shown inside itself. -/
def isInside (birth : Nat) (path : List Enclosure) : Bool :=
  birth != 0 && path.contains (.value birth)

mutual

/-- The text that shows a value inside of some enclosures. -/
def shown (showStore : List Enclosure → Nat → Except Failure String)
    (path : List Enclosure) : Value → Except Failure String
  | .nil => pure "None"
  | .bool flag => pure (if flag then "True" else "False")
  | .int number => integerText number
  | .float number _ => pure number.text
  | .str text => pure (Text.quoted text)
  | .keyword name => pure (":" ++ name)
  | .symbol name => pure ("Symbol(" ++ Text.quoted name ++ ")")
  | .list items birth => do
      let texts ←
        if isInside birth path then pure ["..."]
        else shownItems showStore (.value birth :: path) items
      pure ("[" ++ joinTexts ", " texts ++ "]")
  | .vector items birth => do
      let texts ←
        if isInside birth path then pure ["..."]
        else shownItems showStore (.value birth :: path) items
      pure ("Brackets(I=[" ++ joinTexts ", " texts ++ "])")
  | .quoted form => do
      let text ← shown showStore path form
      pure ("Quoted(" ++ text ++ ")")
  | .tuple items => do
      let texts ← shownItems showStore path items
      pure (tupleText texts)
  | .map entries birth => do
      let texts ←
        if isInside birth path then pure ["..."]
        else shownEntries showStore (.value birth :: path) entries
      pure ("\x7b" ++ joinTexts ", " texts ++ "\x7d")
  | .closure _ name params _ _ _ _ => pure (closureText name params)
  | .builtin function => pure (builtinText function)
  | .instanceTest .. => pure (builtinText .isInstance)
  | .store id => showStore path id
  | .event _ .record members => do
      let fields ← shownMembers showStore path members
      let tag ← kindTag members
      pure ("<EventRecord " ++ tag ++ " " ++ fieldsText fields ++ ">")
  | .event _ (.chain names) _ => pure ("<" ++ names.headD "PlainEvent" ++ ">")
  | .kind eventKind => pure eventKind.shown
  | .constant name => pure ("<Constant." ++ name ++ ">")
  | .unset _ => pure "<object object>"
  | .method .. => pure "<method>"
  | .member _ name => pure ("<bound method " ++ name ++ ">")
  | .scope _ => pure "<Environment>"
  | .evaluator _ => pure "<Evaluator>"
  | .settings config => configText config

/-- The texts that show the items of a list. -/
def shownItems (showStore : List Enclosure → Nat → Except Failure String)
    (path : List Enclosure) : List Value → Except Failure (List String)
  | [] => pure []
  | item :: rest => do
      let text ← shown showStore path item
      let texts ← shownItems showStore path rest
      pure (text :: texts)

/-- The texts that show the entries of a map. -/
def shownEntries (showStore : List Enclosure → Nat → Except Failure String)
    (path : List Enclosure) : List (Value × Value) → Except Failure (List String)
  | [] => pure []
  | entry :: rest => do
      let text ← shownEntry showStore path entry
      let texts ← shownEntries showStore path rest
      pure (text :: texts)

/-- The text that shows an entry of a map. -/
def shownEntry (showStore : List Enclosure → Nat → Except Failure String)
    (path : List Enclosure) : Value × Value → Except Failure String
  | (key, value) => do
      let keyText ← shown showStore path key
      let valueText ← shown showStore path value
      pure (keyText ++ ": " ++ valueText)

/-- The names of an event's members with the texts that show their values. -/
def shownMembers (showStore : List Enclosure → Nat → Except Failure String)
    (path : List Enclosure) :
    List (String × Value) → Except Failure (List (String × String))
  | [] => pure []
  | first :: rest => do
      let field ← shownMember showStore path first
      let fields ← shownMembers showStore path rest
      pure (field :: fields)

/-- The name of a member with the text that shows its value. -/
def shownMember (showStore : List Enclosure → Nat → Except Failure String)
    (path : List Enclosure) : String × Value → Except Failure (String × String)
  | (name, value) => do
      let text ← shown showStore path value
      pure (name, text)

end

/-- A string as the reader accepts it: quote and backslash have a backslash before
them. -/
def sourceString (text : String) : String :=
  let escaped := text.toList.flatMap fun c =>
    if c = '\\' ∨ c = '"' then ['\\', c] else [c]
  String.ofList ('"' :: (escaped ++ ['"']))

mutual

/-- The text of a tree as the reader accepts it.  A value that is no tree is
written as it is shown. -/
def source (showStore : List Enclosure → Nat → Except Failure String) :
    Value → Except Failure String
  | .keyword name => pure (":" ++ name)
  | .symbol name => pure name
  | .quoted form => do
      let text ← source showStore form
      pure ("'" ++ text)
  | .vector items _ => do
      let texts ← sourceItems showStore items
      pure ("[" ++ joinTexts " " texts ++ "]")
  | .list items _ => do
      let texts ← sourceItems showStore items
      pure ("(" ++ joinTexts " " texts ++ ")")
  | .nil => pure "nil"
  | .bool flag => pure (if flag then "true" else "false")
  | .str text => pure (sourceString text)
  | value => shown showStore [] value

/-- The texts of the trees in a list. -/
def sourceItems (showStore : List Enclosure → Nat → Except Failure String) :
    List Value → Except Failure (List String)
  | [] => pure []
  | item :: rest => do
      let text ← source showStore item
      let texts ← sourceItems showStore rest
      pure (text :: texts)

end

/-- The text of a value for people. -/
def display (showStore : List Enclosure → Nat → Except Failure String) (value : Value) :
    Except Failure String :=
  match value.toText?, value with
  | some text, _ => pure text
  | none, .kind eventKind => pure eventKind.display
  | none, _ => shown showStore [] value

/-- The text a value contributes to the text built by an expression: nothing for
`nil`, the language's spelling for keywords, truth values and lists. -/
def textPart (showStore : List Enclosure → Nat → Except Failure String) (value : Value) :
    Except Failure String :=
  match value with
  | .nil => pure ""
  | .keyword name => pure (":" ++ name)
  | .bool flag => pure (if flag then "true" else "false")
  | .list .. => source showStore value
  | _ => display showStore value

end Value

end CueScript
