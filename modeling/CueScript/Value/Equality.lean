import CueScript.Number.Numeric
import CueScript.Value

/-!
# Equality and keys

`Value.equal` is the language's equality.  Truth values count as numbers, numbers
are compared exactly, a keyword equals its bare string, and lists and maps are
compared by content, maps without regard to order.  Equality is not symmetric
between keywords and symbols: a keyword on the left compares texts, a symbol on
the left accepts only symbols.

Inside lists and maps, and between keys, what is one and the same thing matches itself
(`Value.agrees`): a result without a number, although it does not equal itself, and a
list or map, whatever it holds.  `Value.sameKey` decides whether a stored key and a
probe share an entry.
-/

namespace CueScript

namespace Value

/-- A value as an operand of arithmetic; truth values count as 0 and 1. -/
def toNumeric? : Value → Option Numeric
  | .int number => some (.int number)
  | .bool flag => some (.int (if flag then 1 else 0))
  | .float number _ => some (.float number)
  | _ => none

/-- Equality of texts: a string and a keyword compare by text, a symbol equals
only symbols, and a keyword on the left does not look at what the right one is. -/
def equalText : Value → Value → Bool
  | .keyword a, .symbol b => a == b
  | .symbol a, .symbol b => a == b
  | .symbol _, _ => false
  | _, .symbol _ => false
  | a, b =>
      match a.toText?, b.toText? with
      | some s, some t => s == t
      | _, _ => false

/-- Equality of values that hold no other values. -/
def equalAtom (a b : Value) : Bool :=
  match a.toNumeric?, b.toNumeric? with
  | some x, some y => x.equal y
  | none, none =>
      match a, b with
      | .nil, .nil => true
      | .builtin f, .builtin g => f == g
      | .closure i _ _ _ _ _ _, .closure j _ _ _ _ _ _ => i == j
      | .instanceTest i _, .instanceTest j _ => i == j
      | .store i, .store j => i == j
      | .event i _ _, .event j _ _ => i == j
      | .kind k, .kind l => k == l
      | .constant m, .constant n => m == n
      | .unset i, .unset j => i == j
      | .method i _, .method j _ => i == j
      | .scope i, .scope j => i == j
      | .evaluator i, .evaluator j => i == j
      | .settings i, .settings j => i == j
      | _, _ => equalText a b
  | _, _ => false

/-- One and the same result without a number, list or map. -/
def sameBirth : Value → Value → Bool
  | .float .nan i, .float .nan j => i == j
  | .list _ i, .list _ j => i == j && i != 0
  | .map _ i, .map _ j => i == j && i != 0
  | _, _ => false

mutual

/-- Whether a stored key and a probe share an entry.  Only values that can be
keys do. -/
def sameKey (stored probe : Value) : Bool :=
  match stored with
  | .str text =>
      match probe with
      | .str other => text == other
      | _ => equalAtom (.str text) probe
  | .tuple items =>
      match probe with
      | .tuple others => sameKeys items others
      | .quoted other => sameKeys items [other]
      | _ => false
  | .quoted form =>
      match probe with
      | .tuple [other] => sameKey form other
      | .quoted other => sameKey form other
      | _ => false
  | .list .. => false
  | .vector .. => false
  | .map .. => false
  | atom => sameBirth atom probe || equalAtom atom probe

/-- Whether two lists of keys agree one by one. -/
def sameKeys : List Value → List Value → Bool
  | [], [] => true
  | stored :: rest, probe :: others => sameKey stored probe && sameKeys rest others
  | _, _ => false

end

mutual

/-- The language's equality. -/
def equal (a b : Value) : Bool :=
  match a with
  | .list items _ =>
      match b with
      | .list others _ => matchItems items others
      | _ => false
  | .tuple items =>
      match b.toTuple? with
      | some others => matchItems items others
      | none => false
  | .vector items _ =>
      match b.toTuple? with
      | some [.list others _] => matchItems items others
      | _ => false
  | .quoted form =>
      match b.toTuple? with
      | some [other] => sameBirth form other || equal form other
      | _ => false
  | .map entries _ =>
      match b with
      | .map others _ => entries.length == others.length && matchEntries entries others
      | _ => false
  | atom => equalAtom atom b

/-- Whether the items of two lists match one by one. -/
def matchItems : List Value → List Value → Bool
  | [], [] => true
  | item :: rest, other :: others =>
      (sameBirth item other || equal item other) && matchItems rest others
  | _, _ => false

/-- Whether every entry has a matching value under the same key of a map. -/
def matchEntries : List (Value × Value) → List (Value × Value) → Bool
  | [], _ => true
  | entry :: rest, others =>
      matchEntry entry others && matchEntries rest others

/-- Whether a map has a matching value under an entry's key. -/
def matchEntry : Value × Value → List (Value × Value) → Bool
  | (key, value), others =>
      match Entries.find? sameKey key others with
      | some other => sameBirth value other || equal value other
      | none => false

end

/-- Whether two values match as items of a list or values of a map. -/
def agrees (a b : Value) : Bool := sameBirth a b || equal a b

end Value

/-- A map's or store's entries. -/
abbrev ValueEntries := Entries Value Value

end CueScript
