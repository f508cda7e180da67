import CueScript.Text.Digit

/-!
# Options on a command line

A grammar lists options and says what stands besides them: nothing, one argument, or
a command with everything after it.  `Grammar.parse` takes a command line apart.

* A long option can be shortened as long as it stays unique, and its value can follow
  after an equals sign or as the next word.
* Short options without a value can be put together after one hyphen; the value of a
  short option can follow without a blank or after an equals sign.
* After a word of two hyphens, nothing is an option.  Words that look like negative
  numbers and words with a blank in them are none either, unless they begin like one.

What was found before a mistake is kept, because an option that ends the program does
so where it stands.
-/

namespace CueScript

namespace CommandLine

/-- An option: its names and whether it takes a value. -/
structure Choice (κ : Type) where
  key : κ
  names : List String
  takesValue : Bool

/-- What stands besides options. -/
inductive Operand where
  | nothing
  | single
  | command
  deriving DecidableEq, Repr

/-- The options of a command line and what stands besides them. -/
structure Grammar (κ : Type) where
  choices : List (Choice κ)
  operand : Operand

/-- Something found on a command line. -/
inductive Found (κ : Type) where
  | flag (key : κ)
  | value (key : κ) (text : String)
  | operand (text : String)
  | command (words : List String)
  deriving Repr

/-- What follows an option in its word: nothing, characters right after it, or
characters after an equals sign. -/
inductive Tail where
  | none
  | joined (text : String)
  | assigned (text : String)
  deriving DecidableEq, Repr

/-- An option in a word: the option, the name it has there, and what follows it.  A
word that begins like an option but is none has no option. -/
structure Mention (κ : Type) where
  choice : Option (Choice κ)
  name : String
  tail : Tail

/-- What a word of a command line is. -/
inductive Word (κ : Type) where
  | plain (text : String)
  | separator
  | option (mention : Mention κ) (text : String)

namespace Word

/-- The spelling of a word. -/
def text {κ : Type} : Word κ → String
  | plain text => text
  | separator => "--"
  | option _ text => text

end Word

namespace Grammar

variable {κ : Type}

/-- The option with a name. -/
def named? (grammar : Grammar κ) (name : String) : Option (Choice κ) :=
  grammar.choices.find? fun choice => choice.names.contains name

/-- All names with their options. -/
def allNames (grammar : Grammar κ) : List (String × Choice κ) :=
  grammar.choices.flatMap fun choice => choice.names.map fun name => (name, choice)

/-- Whether a text is a number with a minus sign. -/
def isNegativeNumber (text : List Char) : Bool :=
  let isDigit (c : Char) : Bool := (Text.digitValue? c).isSome
  match text with
  | '-' :: rest =>
      let whole := rest.takeWhile isDigit
      match rest.dropWhile isDigit with
      | [] => !whole.isEmpty
      | '.' :: fraction => !fraction.isEmpty && fraction.all isDigit
      | _ => false
  | _ => false

/-- A text up to its first equals sign, and what follows it. -/
def splitValue? (text : List Char) : Option (String × String) :=
  match text.dropWhile (· != '=') with
  | _ :: value =>
      some (String.ofList (text.takeWhile (· != '=')), String.ofList value)
  | [] => none

/-- The options that a word shortens. -/
def shortened (grammar : Grammar κ) (word : List Char) : List (Mention κ) :=
  let begins (start : List Char) (tail : Tail) : List (Mention κ) :=
    grammar.allNames.filterMap fun (name, choice) =>
      if start.isPrefixOf name.toList then some ⟨some choice, name, tail⟩ else none
  match word with
  | '-' :: '-' :: _ =>
      match splitValue? word with
      | some (start, value) => begins start.toList (.assigned value)
      | none => begins word .none
  | '-' :: c :: rest =>
      let short := String.ofList ['-', c]
      grammar.allNames.filterMap fun (name, choice) =>
        if name == short then
          some ⟨some choice, name, .joined (String.ofList rest)⟩
        else if word.isPrefixOf name.toList then
          some ⟨some choice, name, .none⟩
        else
          none
  | _ => []

/-- What a word is; nothing if it shortens several options. -/
def classify (grammar : Grammar κ) (text : String) : Option (Word κ) :=
  match text.toList with
  | '-' :: c :: rest =>
      let word := '-' :: c :: rest
      match grammar.named? text with
      | some choice => some (.option ⟨some choice, text, .none⟩ text)
      | none =>
          let withValue := (splitValue? word).bind fun (name, value) =>
            (grammar.named? name).map fun choice =>
              (⟨some choice, name, .assigned value⟩ : Mention κ)
          match withValue with
          | some mention => some (.option mention text)
          | none =>
              match grammar.shortened word with
              | [mention] => some (.option mention text)
              | _ :: _ :: _ => none
              | [] =>
                  if isNegativeNumber word || word.contains ' ' then
                    some (.plain text)
                  else
                    some (.option ⟨none, text, .none⟩ text)
  | _ => some (.plain text)

/-- What the words of a command line are; nothing if one shortens several options. -/
def words (grammar : Grammar κ) : List String → Option (List (Word κ))
  | [] => some []
  | text :: rest =>
      if text = "--" then
        some (.separator :: rest.map .plain)
      else do
        let word ← grammar.classify text
        let others ← words grammar rest
        some (word :: others)

/-! ## Taking words off a command line -/

/-- What has been found, and whether something is left over. -/
structure Progress (κ : Type) where
  found : List (Found κ)
  surplus : Bool
  operandTaken : Bool

/-- Options found in one word, the words after it, and whether something in the word
is left over; nothing if there is a mistake in it. -/
abbrev Cluster (κ : Type) := Option (List (Found κ) × List (Word κ) × Bool)

/-- Take an option with nothing after it in its word. -/
def takeBare (choice : Choice κ) (rest : List (Word κ)) : Cluster κ :=
  if choice.takesValue then
    match rest with
    | .plain value :: others => some ([.value choice.key value], others, false)
    | _ => none
  else
    some ([.flag choice.key], rest, false)

/-- Take an option with the characters after it in its word, which may stand after an
equals sign: its value, or, after a short option without a value, further short
options. -/
def takeWithin (grammar : Grammar κ) (rest : List (Word κ)) (short : Bool)
    (choice : Choice κ) (assigned : Bool) (after : List Char) : Cluster κ :=
  if choice.takesValue then
    some ([.value choice.key (String.ofList after)], rest, false)
  else
    match after with
    | [] => none
    | c :: others =>
        if !short || assigned || c = '-' then
          none
        else
          match grammar.named? (String.ofList ['-', c]) with
          | none => some ([.flag choice.key], rest, true)
          | some next =>
              let following :=
                match others with
                | [] => takeBare next rest
                | '=' :: value => takeWithin grammar rest true next true value
                | d :: more => takeWithin grammar rest true next false (d :: more)
              following.map fun (found, left) => (.flag choice.key :: found, left)
termination_by after.length

/-- Take an option. -/
def takeOption (grammar : Grammar κ) (mention : Mention κ) (choice : Choice κ)
    (rest : List (Word κ)) : Cluster κ :=
  let short := !("--".toList.isPrefixOf mention.name.toList)
  match mention.tail with
  | .none => takeBare choice rest
  | .joined text => takeWithin grammar rest short choice false text.toList
  | .assigned text => takeWithin grammar rest short choice true text.toList

/-- Take what stands besides options: one word or all, with a separator before or
after it. -/
def takeOperand (grammar : Grammar κ) (rest : List (Word κ)) :
    Option (Found κ × List (Word κ)) :=
  match grammar.operand, rest with
  | .nothing, _ => none
  | .single, .plain text :: .separator :: others => some (.operand text, others)
  | .single, .plain text :: others => some (.operand text, others)
  | .single, .separator :: .plain text :: others => some (.operand text, others)
  | .command, .plain text :: others =>
      some (.command (text :: others.map Word.text), [])
  | .command, .separator :: .plain text :: others =>
      some (.command ("--" :: text :: others.map Word.text), [])
  | _, _ => none

/-- Take the words of a command line one after the other.  The budget is the number of
words, because each step takes at least one.  The result tells whether a mistake ended
it. -/
def run (grammar : Grammar κ) : (budget : Nat) → List (Word κ) → Progress κ →
    Progress κ × Bool
  | _, [], progress => (progress, false)
  | 0, _ :: _, progress => (progress, true)
  | budget + 1, word :: rest, progress =>
      match word with
      | .option mention _ =>
          match mention.choice with
          | none => run grammar budget rest { progress with surplus := true }
          | some choice =>
              match grammar.takeOption mention choice rest with
              | none => (progress, true)
              | some (found, left, surplus) =>
                  run grammar budget left
                    { progress with
                      found := progress.found ++ found
                      surplus := progress.surplus || surplus }
      | _ =>
          let operand :=
            if progress.operandTaken then none else grammar.takeOperand (word :: rest)
          match operand with
          | some (found, left) =>
              run grammar budget left
                { progress with found := progress.found ++ [found], operandTaken := true }
          | none => run grammar budget rest { progress with surplus := true }

/-- What is found on a command line, and whether a mistake ended it.  Nothing is found
if a word shortens several options. -/
def parse (grammar : Grammar κ) (texts : List String) : List (Found κ) × Bool :=
  match grammar.words texts with
  | none => ([], true)
  | some words =>
      let (progress, mistaken) := grammar.run words.length words ⟨[], false, false⟩
      let missing := grammar.operand == .single && !progress.operandTaken
      (progress.found, mistaken || progress.surplus || missing)

end Grammar

end CommandLine

end CueScript
