import CueScript.Text.Blank

/-!
# Kinds of device event

Devices announce four kinds of event.  A kind has a tag (`beat`), a constant name
(`BEAT`) and the name of the class of event objects (`Beat`); `EventKind.ofText?`
accepts each of them, and the tag also in other letter cases and with blanks and
colons before it.
-/

namespace CueScript

/-- The closed set of device event categories. -/
inductive EventKind where
  | deviceUpdate
  | beat
  | mixerStatus
  | cdjStatus
  deriving DecidableEq, Repr, Inhabited

namespace EventKind

/-- All kinds, in their fixed order. -/
def all : List EventKind := [deviceUpdate, beat, mixerStatus, cdjStatus]

/-- The tag by which expressions and layouts name a kind. -/
def tag : EventKind → String
  | deviceUpdate => "device-update"
  | beat => "beat"
  | mixerStatus => "mixer-status"
  | cdjStatus => "cdj-status"

/-- The constant name of a kind. -/
def constantName : EventKind → String
  | deviceUpdate => "DEVICE_UPDATE"
  | beat => "BEAT"
  | mixerStatus => "MIXER_STATUS"
  | cdjStatus => "CDJ_STATUS"

/-- The name of the class of event objects of a kind. -/
def className : EventKind → String
  | deviceUpdate => "DeviceUpdate"
  | beat => "Beat"
  | mixerStatus => "MixerStatus"
  | cdjStatus => "CdjStatus"

/-- The spelling of a kind inside expressions. -/
def keyword (kind : EventKind) : String := ":" ++ kind.tag

/-- The kind with a given tag. -/
def ofTag? (text : String) : Option EventKind :=
  all.find? fun kind => kind.tag == text

/-- The kind whose event objects have a class of this name. -/
def ofClassName? (name : String) : Option EventKind :=
  all.find? fun kind => kind.className == name

/-- The kind a text names: a tag in any letter case, a constant name or a class
name, with blanks around it and colons before it. -/
def ofText? (text : String) : Option EventKind :=
  let key := String.ofList ((Text.strip text.toList).dropWhile (· == ':'))
  let spelled := all.find? fun kind =>
    key == kind.tag || key == kind.constantName || key.toLower == kind.tag
  spelled <|> ofClassName? key

end EventKind

end CueScript
