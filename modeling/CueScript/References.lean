import CueScript.Catalog
import CueScript.Value.Walk

/-!
# Symbols that an expression uses

Only the convenience symbols that occur in an expression are bound when it runs.
They are bound in the order of their names, so that the same expression always
binds them in the same order.
-/

namespace CueScript

/-- A convenience symbol that an expression uses, with the tree that extracts its
value. -/
structure Reference where
  name : String
  extract : Value
  deriving Inhabited

namespace Reference

/-- The symbol that events are bound to. -/
def eventSymbol : String := "status"

/-- A tree that gives the value of another, or `nil` where there is no event. -/
def nullSafe (extract : Value) : Value :=
  .list [.symbol "when", .symbol eventSymbol, extract] 0

/-- The reference to a symbol of a table. -/
def ofBinding (safe : Bool) (binding : Binding) (name : String) : Reference :=
  ⟨name, if safe then nullSafe binding.extract else binding.extract⟩

/-- The symbols of a table that occur in forms, sorted by name. -/
def scan (forms : List Value) (table : BindingTable) (safe : Bool) : List Reference :=
  let mentioned := forms.flatMap Value.symbolNames
  let used := table.filter fun entry => mentioned.contains entry.1
  let sorted := used.mergeSort fun a b => decide (a.1 ≤ b.1)
  sorted.map fun entry => ofBinding safe entry.2 entry.1

end Reference

end CueScript
