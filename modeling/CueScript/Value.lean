import CueScript.Builtin.Name
import CueScript.Config
import CueScript.Entries
import CueScript.Event.Lineage
import CueScript.Number.Binary64

/-!
# Values

Expressions are data: the tree of an expression and the values it computes are of
one type.  A tree holds symbols, literals, lists, vector nodes and quote nodes;
evaluation adds keywords, maps, functions, stores and events.

What changes while expressions run is kept apart.  A value holds only a number that
refers to a store, a scope or an evaluator.  A list can lose items, and a map can hold
the variables of a scope and so grow: both carry a number of their own beside what they
were made with, and what has become of them is kept apart.  Values that are compared by
identity carry a number of their own, too.
-/

namespace CueScript

/-- Where an event's class comes from: an event record, or a chain of class names
from the most special to the most general. -/
inductive EventClass where
  | record
  | chain (names : List String)
  deriving DecidableEq, Repr

/-- A value or a piece of an expression.

* `float` carries a number that tells apart results without a number; it is zero
  for numbers.
* `list` carries a number that tells apart lists in use; it is zero in trees that
  have only been read.
* `vector` and `quoted` are nodes of a tree; a vector evaluates to a list.  It wraps
  a list of its own, to which its number belongs.
* `map` carries a number that tells apart maps in use; it is zero in what has only
  been read.
* `closure` holds its body and refers to its scope and its evaluator.
* `instanceTest` is the `instance?` of a catalog with inheritance of its own.
* `member` is an operation of a value, ready to be called.
* `constant` is a member of an enumeration other than the event kinds.
* `unset` is given to a look-up operation as the default where there is none: a look-up that
  comes back with it has found nothing.
* `method` is an event's member that computes its value when called.
* `scope`, `evaluator` and `settings` are what closures are made with. -/
inductive Value where
  | nil
  | bool (flag : Bool)
  | int (number : Int)
  | float (number : Binary64) (birth : Nat)
  | str (text : String)
  | keyword (name : String)
  | symbol (name : String)
  | list (items : List Value) (birth : Nat)
  | vector (items : List Value) (birth : Nat)
  | quoted (form : Value)
  | tuple (items : List Value)
  | map (entries : List (Value × Value)) (birth : Nat)
  | closure (id : Nat) (name : String) (params : List String) (rest : Option String)
      (body : List Value) (scope evaluator : Nat)
  | builtin (function : Builtin)
  | instanceTest (id : Nat) (lineage : Lineage)
  | store (id : Nat)
  | event (id : Nat) (origin : EventClass) (members : List (String × Value))
  | kind (kind : EventKind)
  | constant (name : String)
  | unset (id : Nat)
  | method (id : Nat) (result : Value)
  | member (receiver : Value) (name : String)
  | scope (id : Nat)
  | evaluator (id : Nat)
  | settings (config : Config)
  deriving Inhabited

namespace Value

/-- The result without a number that all JSON texts share: it is one and the same
thing wherever it is read. -/
def commonNaN : Value := .float .nan 1

/-- The first number that is given out.  Zero stands for none, and one is that of
`commonNaN`. -/
def firstBirth : Nat := 2

/-- Only `nil` and `false` are false in conditions. -/
def isTrue : Value → Bool
  | .nil => false
  | .bool flag => flag
  | _ => true

/-- Whether a value is the one with a number that stands for none. -/
def isUnset (id : Nat) : Value → Bool
  | .unset other => other == id
  | _ => false

/-- Whether a value is a symbol. -/
def isSymbol : Value → Bool
  | .symbol _ => true
  | _ => false

/-- The children of a list or of a vector node. -/
def sequence? : Value → Option (List Value)
  | .list items _ => some items
  | .vector items _ => some items
  | _ => none

/-- What a vector or quote node wraps. -/
def payload? : Value → Option Value
  | .vector items birth => some (.list items birth)
  | .quoted form => some form
  | _ => none

/-- The direct children of a node of a tree; leaves have none. -/
def children : Value → List Value
  | .list items _ => items
  | .vector items _ => items
  | .quoted form => [form]
  | _ => []

/-- The integer a value counts as in arithmetic: truth values count as 0 and 1. -/
def toInt? : Value → Option Int
  | .int number => some number
  | .bool flag => some (if flag then 1 else 0)
  | _ => none

/-- The text of a string, keyword or symbol. -/
def toText? : Value → Option String
  | .str text => some text
  | .keyword name => some name
  | .symbol name => some name
  | _ => none

/-- The items of a tuple; vector and quote nodes are tuples of one item. -/
def toTuple? : Value → Option (List Value)
  | .tuple items => some items
  | .vector items birth => some [.list items birth]
  | .quoted form => some [form]
  | _ => none

/-- The characters of a text, each as a string. -/
def ofChars (text : String) : List Value :=
  text.toList.map fun c => .str c.toString

mutual

/-- Whether a value can be a key: lists and maps cannot, nor tuples of them. -/
def isKey : Value → Bool
  | .list .. => false
  | .map .. => false
  | .vector .. => false
  | .quoted form => form.isKey
  | .tuple items => areKeys items
  | _ => true

/-- Whether all values of a list can be keys. -/
def areKeys : List Value → Bool
  | [] => true
  | item :: rest => item.isKey && areKeys rest

end

/-- The name of a value's class, as error texts show it. -/
def className : Value → String
  | .nil => "NoneType"
  | .bool _ => "bool"
  | .int _ => "int"
  | .float .. => "float"
  | .str _ => "str"
  | .keyword _ => "Keyword"
  | .symbol _ => "Symbol"
  | .list .. => "list"
  | .vector .. => "Brackets"
  | .quoted _ => "Quoted"
  | .tuple _ => "tuple"
  | .map .. => "dict"
  | .closure .. => "Closure"
  | .builtin function =>
      if function = .maximum ∨ function = .minimum ∨ function = .absolute then
        "builtin_function_or_method"
      else
        "function"
  | .instanceTest .. => "function"
  | .store _ => "SharedState"
  | .event _ .record _ => "EventRecord"
  | .event _ (.chain names) _ => names.headD "PlainEvent"
  | .kind _ => "EventTypeTag"
  | .constant _ => "Constant"
  | .unset _ => "object"
  | .method .. => "Method"
  | .member .. => "method"
  | .scope _ => "Environment"
  | .evaluator _ => "Evaluator"
  | .settings _ => "ExpressionConfig"

end Value

end CueScript
