import CueScript.Value

/-!
# Walking through trees

`Value.postOrder` lists the nodes of a tree, every child before its parent.
`NodeKind` tells nodes by their shape; a symbol that starts with a colon counts as
a keyword.
-/

namespace CueScript

/-- What a node of a tree is by its shape. -/
inductive NodeKind where
  | vector
  | list
  | quoted
  | keyword
  | symbol
  | literal
  deriving DecidableEq, Repr

namespace Value

/-- Whether the name of a symbol spells a keyword. -/
def spellsKeyword (name : String) : Bool :=
  match name.toList with
  | ':' :: _ => true
  | _ => false

/-- The shape of a node. -/
def nodeKind : Value → NodeKind
  | .vector .. => .vector
  | .list .. => .list
  | .quoted _ => .quoted
  | .symbol name => if spellsKeyword name then .keyword else .symbol
  | .keyword _ => .keyword
  | _ => .literal

mutual

/-- The nodes of a tree, every child before its parent. -/
def postOrder (node : Value) : List Value :=
  match node with
  | .list items _ => postOrderAll items ++ [node]
  | .vector items _ => postOrderAll items ++ [node]
  | .quoted form => postOrder form ++ [node]
  | _ => [node]

/-- The nodes of trees, one tree after the other. -/
def postOrderAll : List Value → List Value
  | [] => []
  | item :: rest => postOrder item ++ postOrderAll rest

end

/-- The name of a node that is a symbol and no keyword. -/
def symbolName? (node : Value) : Option String :=
  match node with
  | .symbol name => if spellsKeyword name then none else some name
  | _ => none

/-- The names of the symbols in a tree, without keywords. -/
def symbolNames (tree : Value) : List String := (postOrder tree).filterMap symbolName?

end Value

end CueScript
