import CueScript.CommandLine.Options
import CueScript.Event.Kind
import CueScript.Number.Literal

/-!
# Invocations of the program

The commands of the program with their options, and what a command line asks for.
An option that ends the program does so before anything to its right is looked at;
the text of a kind of event or of a number has to be acceptable where it stands.
-/

namespace CueScript

namespace CommandLine

/-- How an expression is compiled on the command line. -/
structure ExpressionOptions where
  /-- The text of the expression; a hyphen stands for the standard input. -/
  text : String
  kind : EventKind
  nullSafe : Bool
  maxDepth : Int
  deriving DecidableEq, Repr

/-- The commands of the program. -/
inductive Command where
  | types
  | bindings (kind : EventKind) (namesOnly : Bool)
  | check (options : ExpressionOptions)
  | eval (options : ExpressionOptions) (event globals : Option String)
  deriving DecidableEq, Repr

/-- What a command line asks for. -/
inductive Invocation where
  | mistake
  | help
  | version
  | nothing (verbosity : Nat)
  | command (verbosity : Nat) (command : Command)
  deriving DecidableEq, Repr

/-- The options of the program and its commands. -/
inductive OptionKey where
  | help
  | version
  | verbose
  | namesOnly
  | kind
  | nullSafe
  | maxDepth
  | event
  | globals
  deriving DecidableEq, Repr

namespace Invocation

/-! ## Grammars -/

/-- The option that asks for help. -/
def helpChoice : Choice OptionKey := ⟨.help, ["-h", "--help"], false⟩

/-- The options before the command. -/
def mainGrammar : Grammar OptionKey :=
  ⟨[helpChoice, ⟨.version, ["--version"], false⟩, ⟨.verbose, ["-v", "--verbose"], false⟩],
    .command⟩

/-- The command that lists kinds of event has no options. -/
def typesGrammar : Grammar OptionKey := ⟨[helpChoice], .nothing⟩

/-- The options of the command that lists symbols. -/
def bindingsGrammar : Grammar OptionKey :=
  ⟨[helpChoice, ⟨.namesOnly, ["--names-only"], false⟩], .single⟩

/-- The options of commands that compile an expression. -/
def expressionChoices : List (Choice OptionKey) := [
  helpChoice,
  ⟨.kind, ["-t", "--type"], true⟩,
  ⟨.nullSafe, ["--null-safe"], false⟩,
  ⟨.maxDepth, ["--max-depth"], true⟩]

/-- The options of the command that checks an expression. -/
def checkGrammar : Grammar OptionKey := ⟨expressionChoices, .single⟩

/-- The options of the command that runs an expression. -/
def evalGrammar : Grammar OptionKey :=
  ⟨expressionChoices ++ [⟨.event, ["--event"], true⟩, ⟨.globals, ["--globals"], true⟩],
    .single⟩

/-! ## Reading what was found -/

/-- The settings of a command as far as they have been read. -/
structure Settings where
  operand : Option String := none
  kind : EventKind := .deviceUpdate
  namesOnly : Bool := false
  nullSafe : Bool := false
  maxDepth : Int := 200
  event : Option String := none
  globals : Option String := none

/-- What ends the reading of a command line early. -/
inductive Ending where
  | mistake
  | help
  | version

/-- Read one thing found after a command.  `kindOperand` says that the operand names a
kind of event. -/
def readSetting (kindOperand : Bool) (settings : Settings) :
    Found OptionKey → Except Ending Settings
  | .flag .help => throw .help
  | .flag .namesOnly => pure { settings with namesOnly := true }
  | .flag .nullSafe => pure { settings with nullSafe := true }
  | .value .kind text =>
      match EventKind.ofText? text with
      | some kind => pure { settings with kind := kind }
      | none => throw .mistake
  | .value .maxDepth text =>
      match Literal.readInt? text.toList with
      | some depth => pure { settings with maxDepth := depth }
      | none => throw .mistake
  | .value .event text => pure { settings with event := some text }
  | .value .globals text => pure { settings with globals := some text }
  | .operand text =>
      if kindOperand then
        match EventKind.ofText? text with
        | some kind => pure { settings with operand := some text, kind := kind }
        | none => throw .mistake
      else
        pure { settings with operand := some text }
  | _ => throw .mistake

/-- Read everything found after a command. -/
def readSettings (kindOperand : Bool) (grammar : Grammar OptionKey) (words : List String) :
    Except Ending Settings := do
  let (found, mistaken) := grammar.parse words
  let settings ← found.foldlM (readSetting kindOperand) {}
  if mistaken then throw .mistake else pure settings

/-- The options of a command that compiles an expression. -/
def expressionOptions (settings : Settings) : ExpressionOptions :=
  { text := settings.operand.getD ""
    kind := settings.kind
    nullSafe := settings.nullSafe
    maxDepth := settings.maxDepth }

/-- Read a command. -/
def readCommand (words : List String) : Except Ending Command :=
  match words with
  | "types" :: rest => do
      let _ ← readSettings false typesGrammar rest
      pure .types
  | "bindings" :: rest => do
      let settings ← readSettings true bindingsGrammar rest
      pure (.bindings settings.kind settings.namesOnly)
  | "check" :: rest => do
      let settings ← readSettings false checkGrammar rest
      pure (.check (expressionOptions settings))
  | "eval" :: rest => do
      let settings ← readSettings false evalGrammar rest
      pure (.eval (expressionOptions settings) settings.event settings.globals)
  | _ => throw .mistake

/-- Read what was found before and at the command: how verbose to be, and the
command. -/
def readMain (verbosity : Nat) (command : Option Command) :
    List (Found OptionKey) → Except Ending (Nat × Option Command)
  | [] => pure (verbosity, command)
  | .flag .help :: _ => throw .help
  | .flag .version :: _ => throw .version
  | .flag .verbose :: rest => readMain (verbosity + 1) command rest
  | .command words :: rest => do
      let read ← readCommand words
      readMain verbosity (some read) rest
  | _ :: _ => throw .mistake

/-- What a command line asks for. -/
def ofWords (words : List String) : Invocation :=
  let (found, mistaken) := mainGrammar.parse words
  match readMain 0 none found with
  | .error .mistake => .mistake
  | .error .help => .help
  | .error .version => .version
  | .ok (verbosity, chosen) =>
      if mistaken then
        .mistake
      else
        match chosen with
        | none => .nothing verbosity
        | some each => .command verbosity each

end Invocation

end CommandLine

end CueScript
