import CueScript.Value

/-!
# Abbreviations

Some calls are abbreviations: they stand for a call with further arguments, which
are symbols that a compiled expression binds.
-/

namespace CueScript

/-- The calls that are abbreviations, with the head and the first arguments of what
they stand for. -/
def abbreviations : List (String × List String) := [
  ("track-matches", ["track-matches*", "status", "globals"]),
  ("find-track", ["find-track*", "status", "locals", "globals"])]

/-- The form that an abbreviation with some arguments stands for. -/
def expand? (head : String) (args : List Value) : Option Value :=
  (abbreviations.lookup head).map fun symbols => .list (symbols.map .symbol ++ args) 0

end CueScript
