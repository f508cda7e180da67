/-!
# Settings

What can be set for compiling and running expressions, and what `Config.warnings`
finds wrong with it.
-/

namespace CueScript

/-- What can be set for compiling and running. -/
structure Config where
  maxDepth : Int := 200
  filename : String := "<expression>"
  logTracebacks : Bool := true
  deriving DecidableEq, Repr, Inhabited

namespace Config

/-- What is wrong with the settings. -/
def warnings (config : Config) : List String :=
  let depth := if config.maxDepth ≤ 0 then ["max_depth must be positive"] else []
  let filename :=
    if config.filename.isEmpty then
      ["filename should name the expression for diagnostics"]
    else
      []
  depth ++ filename

end Config

end CueScript
