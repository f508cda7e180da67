import CueScript.Action

/-!
# Events as values

An event record is an object with members that are read from a map; it says of
which kind it is by its member `event_type`.  Other events are told by the names
of their classes.
-/

namespace CueScript

namespace Event

/-- The member that holds the kind of an event. -/
def kindMember : String := "event_type"

/-- The name of a member as events have it: hyphens are underscores. -/
def memberName (name : String) : String := name.map fun c => if c = '-' then '_' else c

/-- The members that the entries of a map stand for.  The kind of the event is not
taken from them. -/
def members : List (Value × Value) → Entries String Value → Action (Entries String Value)
  | [], read => pure (Entries.erase (· == ·) kindMember read)
  | (key, value) :: rest, read => do
      let name := memberName (← Action.display key)
      members rest (Entries.put (· == ·) name value read)

/-- An event record of a kind with the members that a map gives.  A member cannot
be called `self`. -/
def ofMap (kind data : Value) : Action Value := do
  match data with
  | .map entries _ =>
      let fields ← members entries []
      if Entries.has (· == ·) "self" fields then
        Action.fail .wrongType
      else
        return .event (← Action.newId) .record ((kindMember, kind) :: fields)
  | _ => Action.fail .noAttribute

/-- The kind that a value's class names tell. -/
def kindOfClass? : Value → Option EventKind
  | .event _ (.chain names) _ => names.findSome? EventKind.ofClassName?
  | _ => none

/-- What a value says about its kind. -/
def declared? : Value → Option Value
  | .event _ _ members => Entries.find? (· == ·) kindMember members
  | _ => none

/-- The kind of an event: the one it declares, by itself or by a text that names
one, or else the one its class names tell. -/
def kind? (value : Value) : Option EventKind :=
  match declared? value with
  | some (.kind kind) => some kind
  | some other =>
      match other.toText?.bind EventKind.ofText? with
      | some kind => some kind
      | none => kindOfClass? value
  | none => kindOfClass? value

/-- The kind that the text of a value names, or a failure that shows the value. -/
def parseKind (value : Value) : Action EventKind := do
  match EventKind.ofText? (← Action.display value) with
  | some kind => return kind
  | none => Action.fail (.unknownEventKind (← Action.shown value))

end Event

end CueScript
