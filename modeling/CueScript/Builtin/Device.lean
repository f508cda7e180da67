import CueScript.Builtin.Arithmetic
import CueScript.Event.Record
import CueScript.Store.Operation

/-!
# Devices

What expressions ask about events: of which kind one is, the playing speed a raw
pitch stands for, and from where the track of a player was loaded.

`findTrack` looks the track of a player up in nested maps (source, player, slot,
track number) and keeps the description that an expression publishes in step with
what it finds.
-/

namespace CueScript

namespace Device

/-- The raw pitch at which a player runs at normal speed. -/
def neutralPitch : Int := 0x100000

/-- The key under which an expression publishes a description. -/
def descriptionKey : Value := .str "track-description"

/-- The slots from which a track can be loaded. -/
def slots : List String := ["no-track", "cd-slot", "sd-slot", "usb-slot", "collection"]

/-- The kinds of track. -/
def trackTypes : List String := ["no-track", "cd-digital-audio", "rekordbox"]

/-- Whether a value is an event of a kind, going by a lineage. -/
def isInstance (lineage : Lineage) (kind value : Value) : Action Bool := do
  let target ←
    match kind with
    | .kind target => pure target
    | _ => Event.parseKind kind
  return lineage.isA (Event.kind? value) target

/-- The playing speed of a raw pitch as a multiple of the normal one. -/
def pitchMultiplier (pitch : Value) : Action Value :=
  Arithmetic.divide pitch (.int neutralPitch)

/-- The deviation of the playing speed from the normal one in percent. -/
def pitchPercentage (pitch : Value) : Action Value := do
  let deviation ← Arithmetic.subtract pitch (.int neutralPitch)
  let scaled ← Arithmetic.multiply deviation (.float (Binary64.ofInt 100) 0)
  Arithmetic.divide scaled (.int neutralPitch)

/-- A member of a value; an operation is called for its result. -/
def read (call : Caller) (value : Value) (name : String) : Action Value := do
  let found ← Access.member value name
  if Access.isCallable found then call found [] else return found

/-- A character in lower case, as far as it can become an ASCII letter: the sign of
the unit of temperature is a K, too. -/
def toLower (c : Char) : Char := if c = '\u212a' then 'k' else c.toLower

/-- The keyword for a member of an enumeration or its name, such as `:usb-slot` for
`USB_SLOT`; what is not allowed is unknown. -/
def enumKeyword (value : Value) (allowed : List String) : Action Value := do
  let text ←
    match value with
    | .constant name => pure name
    | .kind kind => pure kind.constantName
    | _ => Action.display value
  let spelled := (text.toList.dropWhile (· == ':')).map fun c =>
    if c = '_' then '-' else toLower c
  let name := String.ofList spelled
  return .keyword (if name ∈ allowed then name else "unknown")

/-- The slot from which the track of a player was loaded, as a keyword. -/
def trackSourceSlot (call : Caller) (status : Value) : Action Value := do
  enumKeyword (← read call status "track_source_slot") slots

/-- The kind of track that a player has loaded, as a keyword. -/
def trackType (call : Caller) (status : Value) : Action Value := do
  enumKeyword (← read call status "track_type") trackTypes

/-- Look a key up; what is missing is `nil`. -/
def lookup (call : Caller) (collection key : Value) : Action Value :=
  return (← Access.lookup call collection key (some .nil)).getD .nil

/-- Whether the track of a player is a given one of the media that a map under a key
describes. -/
def trackMatches (call : Caller) (status globals source number : Value) :
    Action Bool := do
  let media ← lookup call globals source
  let player ← read call status "track_source_player"
  let mounted ← lookup call media (.str "player")
  if ← Action.equal player mounted then
    let slot ← trackSourceSlot call status
    let mountedSlot ← lookup call media (.str "slot")
    if ← Action.equal slot mountedSlot then
      let loaded ← read call status "rekordbox_id"
      Action.equal loaded number
    else
      return false
  else
    return false

/-- Publish a description in a store. -/
def publish (call : Caller) (locals description : Value) : Action Unit := do
  let _ ← Access.callMember call locals "set" [descriptionKey, description]

/-- Publish in a store what a function says of a track. -/
def describe (call : Caller) (locals describer track : Value) : Action Unit := do
  let operation ← Access.member locals "set"
  let description ← call describer [track]
  let _ ← call operation [descriptionKey, description]

/-- Withdraw the description from a store. -/
def withdraw (call : Caller) (locals : Value) : Action Unit := do
  let _ ← Access.callMember call locals "remove" [descriptionKey]

/-- The track of a player in the nested maps under a key.  A track that is found is
described, otherwise the description is withdrawn. -/
def findTrack (call : Caller) (status locals globals source describer : Value) :
    Action Value := do
  let player ← read call status "track_source_player"
  let slot ← trackSourceSlot call status
  let number ← read call status "rekordbox_id"
  let found ← Access.lookupPath call globals (.tuple [source, player, slot, number])
  let track := found.getD .nil
  match source, describer with
  | .nil, _ => return track
  | _, .nil => do
      withdraw call locals
      return track
  | _, _ => do
      if track.isTrue then describe call locals describer track else withdraw call locals
      return track

end Device

end CueScript
