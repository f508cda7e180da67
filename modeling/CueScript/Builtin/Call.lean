import CueScript.Builtin.Collection
import CueScript.Builtin.Device

/-!
# Calls of built-in functions

`Call.perform` carries out a built-in function.  Functions that are arguments
are called by way of the given caller.  A wrong number of arguments is a failure
of its own kind of type.
-/

namespace CueScript

namespace Call

/-- Whether a value is in an order relation to zero. -/
def comparesToZero (relation : Comparison) (value : Value) : Action Value :=
  return .bool (← Action.ofExcept (Value.compares relation value (.int 0)))

/-- Whether the remainder of a value by two is the given one. -/
def hasParity (remainder : Int) (value : Value) : Action Value := do
  let left ← Arithmetic.modulo value (.int 2)
  return .bool (left.equal (.int remainder))

/-- Whether an order relation holds between each argument and the next. -/
def ordered (relation : Comparison) : List Value → Action Value
  | [] => Action.fail .wrongType
  | first :: rest => do
      let relates (a b : Value) : Action Bool :=
        Action.ofExcept (Value.compares relation a b)
      return .bool (← Arithmetic.eachHolds relates first rest)

/-- Whether each argument equals the next. -/
def allEqual : List Value → Action Bool
  | [] => Action.fail .wrongType
  | first :: rest =>
      Arithmetic.eachHolds (fun a b => pure (a.equal b)) first rest

/-- The extreme argument, or the extreme item of the only argument. -/
def extremeOf (relation : Comparison) : List Value → Action Value
  | [] => Action.fail .wrongType
  | [collection] => do
      match ← Access.items collection with
      | [] => Action.fail .badValue
      | first :: rest => Arithmetic.extreme relation first rest
  | first :: rest => Arithmetic.extreme relation first rest

/-- Whether a value is a number; truth values are none. -/
def isNumberValue : Value → Bool
  | .int _ => true
  | .float .. => true
  | _ => false

/-- Whether a value is a string; a symbol is a string, a keyword is none. -/
def isStringValue : Value → Bool
  | .str _ => true
  | .symbol _ => true
  | _ => false

/-- The text of values one after the other. -/
def joinedText : List Value → Action String
  | [] => return ""
  | value :: rest => do
      let text ← Action.reading fun heap => heap.textPart value
      let texts ← joinedText rest
      return text ++ texts

/-- Arithmetic functions. -/
def performArithmetic (function : Builtin) (args : List Value) : Action Value :=
  match function, args with
  | .add, _ => Arithmetic.chain Arithmetic.add (.int 0) args
  | .subtract, [value] => Arithmetic.negate value
  | .subtract, first :: rest => Arithmetic.chain Arithmetic.subtract first rest
  | .multiply, _ => Arithmetic.chain Arithmetic.multiply (.int 1) args
  | .divide, [value] => Arithmetic.divide (.int 1) value
  | .divide, first :: rest => Arithmetic.chain Arithmetic.divide first rest
  | .quotient, [a, b] => do Arithmetic.integerPart (← Arithmetic.quotient a b)
  | .modulo, [a, b] => Arithmetic.modulo a b
  | .increment, [value] => Arithmetic.add value (.int 1)
  | .decrement, [value] => Arithmetic.subtract value (.int 1)
  | .maximum, _ => extremeOf .greater args
  | .minimum, _ => extremeOf .less args
  | .absolute, [value] => Arithmetic.absolute value
  | _, _ => Action.fail .wrongType

/-- Comparisons and tests. -/
def performTest (function : Builtin) (args : List Value) : Action Value :=
  match function, args with
  | .equal, _ => return .bool (← allEqual args)
  | .notEqual, _ => return .bool (!(← allEqual args))
  | .less, _ => ordered .less args
  | .greater, _ => ordered .greater args
  | .atMost, _ => ordered .atMost args
  | .atLeast, _ => ordered .atLeast args
  | .not, [value] => return .bool (!value.isTrue)
  | .isNil, [value] => return .bool (value matches .nil)
  | .isSome, [value] => return .bool !(value matches .nil)
  | .isTrue, [value] => return .bool (value matches .bool true)
  | .isFalse, [value] => return .bool (value matches .bool false)
  | .isZero, [value] => return .bool (value.equal (.int 0))
  | .isPositive, [value] => comparesToZero .greater value
  | .isNegative, [value] => comparesToZero .less value
  | .isEven, [value] => hasParity 0 value
  | .isOdd, [value] => hasParity 1 value
  | .isNumber, [value] => return .bool (isNumberValue value)
  | .isString, [value] => return .bool (isStringValue value)
  | .isKeyword, [value] => return .bool (value matches .keyword _)
  | _, _ => Action.fail .wrongType

/-- Functions on texts. -/
def performText (function : Builtin) (args : List Value) : Action Value :=
  match function, args with
  | .text, _ => return .str (← joinedText args)
  | .format, template :: values =>
      match template.toText? with
      | some characters => Arithmetic.fillTemplate template characters ⟨values, none⟩
      | none => Action.fail .wrongType
  | .name, [value] => return .str (← Action.display value)
  | .keyword, [value] => do
      let characters := (← Action.display value).toList
      return .keyword (String.ofList (characters.dropWhile (· == ':')))
  | _, _ => Action.fail .wrongType

/-- Functions on collections. -/
def performCollection (call : Caller) (function : Builtin) (args : List Value) :
    Action Value :=
  match function, args with
  | .get, [collection, key] =>
      return (← Access.lookup call collection key (some .nil)).getD .nil
  | .get, [collection, key, default] =>
      return (← Access.lookup call collection key (some default)).getD default
  | .getIn, [collection, path] =>
      return (← Access.lookupPath call collection path).getD .nil
  | .getIn, [collection, path, default] =>
      return (← Access.lookupPath call collection path).getD default
  | .list, _ => Action.newList args
  | .hashMap, _ => Collection.hashMap args
  | .assoc, collection :: rest => Collection.assoc call collection rest
  | .dissoc, collection :: rest => Collection.dissoc call collection rest
  | .contains, [collection, key] => return .bool (← Collection.contains collection key)
  | .count, [collection] => return .int (← Collection.count collection)
  | .isEmpty, [collection] => return .bool ((← Collection.count collection) == 0)
  | .first, [collection] => Collection.first collection
  | .second, [collection] => Collection.second collection
  | .rest, [collection] => Collection.rest collection
  | .nth, collection :: index :: default => Collection.nth collection index default.head?
  | .conj, collection :: items => Collection.conj collection items
  | .keys, [collection] => Collection.listed call "keys" collection
  | .vals, [collection] => Collection.listed call "values" collection
  | .map, [mapped, collection] => Collection.mapItems call mapped collection
  | .filter, [test, collection] => Collection.filterItems call test collection
  | .some, [test, collection] => Collection.someItem call test collection
  | .reduce, combined :: rest => Collection.reduce call combined rest
  | .apply, applied :: rest => Collection.apply call applied rest
  | _, _ => Action.fail .wrongType

/-- Functions on events and stores. -/
def performDevice (call : Caller) (function : Builtin) (args : List Value) :
    Action Value :=
  match function, args with
  | .isInstance, [kind, value] =>
      return .bool (← Device.isInstance Lineage.standard kind value)
  | .pitchMultiplier, [pitch] => Device.pitchMultiplier pitch
  | .pitchPercentage, [pitch] => Device.pitchPercentage pitch
  | .trackSourceSlot, [status] => Device.trackSourceSlot call status
  | .trackType, [status] => Device.trackType call status
  | .trackMatches, [status, globals, source, number] =>
      return .bool (← Device.trackMatches call status globals source number)
  | .findTrack, [status, locals, globals, source] =>
      Device.findTrack call status locals globals source .nil
  | .findTrack, [status, locals, globals, source, describer] =>
      Device.findTrack call status locals globals source describer
  | .fetch, [store, key] => Access.callMember call store "get" [key, .nil]
  | .fetch, [store, key, default] => Access.callMember call store "get" [key, default]
  | .put, [store, key, value] => Access.callMember call store "set" [key, value]
  | .forget, [store, key] => Access.callMember call store "remove" [key]
  | .swap, store :: key :: rest@(_ :: _) => Access.callMember call store "update" (key :: rest)
  | .compareAndSet, [store, key, expected, value] =>
      Access.callMember call store "compare_and_set" [key, expected, value]
  | .setDescription, [locals, description] => do
      Device.publish call locals description
      return description
  | _, _ => Action.fail .wrongType

/-- What a built-in function is about. -/
inductive Family where
  | arithmetic
  | test
  | text
  | collection
  | device
  deriving DecidableEq, Repr

/-- The family of a built-in function. -/
def family : Builtin → Family
  | .add | .subtract | .multiply | .divide | .quotient | .modulo | .increment | .decrement
  | .maximum | .minimum | .absolute => .arithmetic
  | .equal | .less | .greater | .atMost | .atLeast | .notEqual
  | .not | .isNil | .isSome | .isTrue | .isFalse | .isZero | .isPositive | .isNegative
  | .isEven | .isOdd | .isNumber | .isString | .isKeyword => .test
  | .text | .format | .name | .keyword => .text
  | .get | .getIn | .list | .hashMap | .assoc | .dissoc | .contains | .count | .isEmpty
  | .first | .second | .rest | .nth | .conj | .keys | .vals
  | .map | .filter | .some | .reduce | .apply => .collection
  | .isInstance | .pitchMultiplier | .pitchPercentage | .trackSourceSlot | .trackType
  | .trackMatches | .findTrack
  | .fetch | .put | .forget | .swap | .compareAndSet | .setDescription => .device

/-- Carry out a built-in function. -/
def perform (call : Caller) (function : Builtin) (args : List Value) : Action Value :=
  match family function with
  | .arithmetic => performArithmetic function args
  | .test => performTest function args
  | .text => performText function args
  | .collection => performCollection call function args
  | .device => performDevice call function args

end Call

end CueScript
