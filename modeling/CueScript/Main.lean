import CueScript.CommandLine

/-!
# The program

The outermost layer: it passes the command line and the standard input to
`CommandLine.run` and writes what comes back.
-/

namespace CueScript

/-- The text that explains the use of the program. -/
def usageText : String :=
  "usage: triggerexpr [-h] [--version] [-v] <command> ...\n\n" ++
  "commands:\n" ++
  "  types                          list event types and their inheritance\n" ++
  "  bindings TYPE [--names-only]   show the symbols for an event type\n" ++
  "  check EXPRESSION [OPTIONS]     compile an expression and show what it binds\n" ++
  "  eval EXPRESSION [OPTIONS]      compile an expression and run it on one event\n\n" ++
  "options of check and eval:\n" ++
  "  -t, --type TYPE    event type the expression handles\n" ++
  "  --null-safe        bind symbols to nil when there is no event\n" ++
  "  --max-depth N      deepest evaluation nesting allowed\n" ++
  "  --event JSON       event members as an object (eval only)\n" ++
  "  --globals JSON     contents of the shared store as an object (eval only)\n"

/-- Whether the text of the expression is read from the standard input. -/
def readsInput (argv : List String) : Bool :=
  match CommandLine.Invocation.ofWords argv with
  | .command _ (.check options) => options.text = "-"
  | .command _ (.eval options _ _) => options.text = "-"
  | _ => false

end CueScript

/-- Run the program. -/
def main (argv : List String) : IO UInt32 := do
  let stdin ← if CueScript.readsInput argv then (← IO.getStdin).readToEnd else pure ""
  let around : CueScript.CommandLine.Surroundings :=
    ⟨"--:--:--", CueScript.usageText, "(no trace)"⟩
  let output := CueScript.CommandLine.run around argv stdin
  IO.print output.stdout
  IO.eprint output.stderr
  return output.exit.toNat.toUInt32
