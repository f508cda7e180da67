/-!
# Names of the built-in functions

`Builtin` has one constructor for each built-in function.  `Builtin.table` gives
the names under which expressions see them; a function with two names is shown
under the first.
-/

namespace CueScript

/-- The built-in functions. -/
inductive Builtin where
  | add | subtract | multiply | divide | quotient | modulo | increment | decrement
  | maximum | minimum | absolute
  | equal | less | greater | atMost | atLeast | notEqual
  | not | isNil | isSome | isTrue | isFalse | isZero | isPositive | isNegative
  | isEven | isOdd | isNumber | isString | isKeyword
  | text | format | name | keyword
  | get | getIn | list | hashMap | assoc | dissoc | contains | count | isEmpty
  | first | second | rest | nth | conj | keys | vals
  | map | filter | some | reduce | apply
  | isInstance | pitchMultiplier | pitchPercentage | trackSourceSlot | trackType
  | trackMatches | findTrack
  | fetch | put | forget | swap | compareAndSet | setDescription
  deriving DecidableEq, Repr, Inhabited

namespace Builtin

/-- The built-in functions with their names, in the order of registration. -/
def table : List (String × Builtin) := [
  ("+", add), ("-", subtract), ("*", multiply), ("/", divide),
  ("quot", quotient), ("mod", modulo), ("inc", increment), ("dec", decrement),
  ("max", maximum), ("min", minimum), ("abs", absolute),
  ("=", equal), ("<", less), (">", greater), ("<=", atMost), (">=", atLeast),
  ("not=", notEqual), ("not", not), ("nil?", isNil), ("some?", isSome),
  ("true?", isTrue), ("false?", isFalse), ("zero?", isZero),
  ("pos?", isPositive), ("neg?", isNegative), ("even?", isEven), ("odd?", isOdd),
  ("number?", isNumber), ("string?", isString), ("keyword?", isKeyword),
  ("str", text), ("format", format), ("name", name), ("keyword", keyword),
  ("get", get), ("get-in", getIn), ("list", list), ("vector", list),
  ("hash-map", hashMap), ("assoc", assoc), ("dissoc", dissoc),
  ("contains?", contains), ("count", count), ("empty?", isEmpty),
  ("first", first), ("second", second), ("rest", rest), ("nth", nth),
  ("conj", conj), ("keys", keys), ("vals", vals),
  ("map", map), ("filter", filter), ("some", some), ("reduce", reduce),
  ("apply", apply),
  ("instance?", isInstance), ("pitch->multiplier", pitchMultiplier),
  ("pitch->percentage", pitchPercentage), ("track-source-slot", trackSourceSlot),
  ("track-type", trackType), ("track-matches*", trackMatches),
  ("find-track*", findTrack),
  ("fetch", fetch), ("store!", put), ("forget!", forget), ("swap!", swap),
  ("compare-and-set!", compareAndSet), ("set-description!", setDescription)]

/-- The first name of a function. -/
def shownName (function : Builtin) : String :=
  match table.find? fun entry => entry.2 == function with
  | .some entry => entry.1
  | .none => ""

end Builtin

end CueScript
