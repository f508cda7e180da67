import CueScript.Catalog

/-!
# The standard catalog

The convenience symbols for the events that devices announce.  Symbols that several
kinds of event have in common are defined first.
-/

namespace CueScript

namespace Catalog

namespace Standard

/-- The raw tempo of the track. -/
def rawBpm : String × String × String :=
  ("raw-bpm", "(.bpm status)",
    "The raw track BPM at the time of the update. An integer representing the BPM " ++
    "times 100, so a track running at 120.5 BPM is represented by 12050.")

/-- The tempo of the track. -/
def trackBpm : String × String × String :=
  ("track-bpm", "(/ (.bpm status) 100.0)",
    "The track BPM at the time of the update, a floating point value from 0.0 to " ++
    "65,535. See `effective-tempo` for the speed at which it is currently playing.")

/-- The playing speed as a multiplier. -/
def pitchMultiplier : String × String × String :=
  ("pitch-multiplier", "(pitch->multiplier (.pitch status))",
    "The current device pitch (playback speed) as a multiplier from 0.0 to 2.0, where " ++
    "normal, unadjusted pitch is 1.0 and zero means stopped.")

/-- The playing speed in percent. -/
def pitchPercent : String × String × String :=
  ("pitch-percent", "(pitch->percentage (.pitch status))",
    "The current device pitch (playback speed) as a percentage from -100% to +100%, " ++
    "where normal, unadjusted pitch is 0%.")

/-- The raw playing speed. -/
def rawPitch : String × String × String :=
  ("raw-pitch", "(.pitch status)",
    "The raw device pitch, an integer from 0 to 2,097,152, which corresponds to a " ++
    "range between completely stopped and twice normal tempo. See `pitch-multiplier` " ++
    "and `pitch-percent` for more useful forms.")

/-- The own symbols for every event. -/
def deviceUpdate : List (String × String × String) := [
  ("address", "(.address status)",
    "The address of the device from which this update was received."),
  ("beat?", "(instance? :beat status)",
    "Will be `true` if this update is announcing a new beat."),
  ("beat-within-bar", "(.beat-within-bar status)",
    "The position within a measure of music at which the most recent beat fell (1 to " ++
    "4, where 1 is the down beat). Only meaningful from players whose track was " ++
    "configured in rekordbox; check `bar-meaningful?`."),
  ("bar-meaningful?", "(.is-beat-within-bar-meaningful status)",
    "Will be `true` if `beat-within-bar` can be expected to have musical significance " ++
    "for this device."),
  ("cdj?", "(or (instance? :cdj-status status)" ++
      " (and (instance? :beat status) (< (.device-number status) 17)))",
    "Will be `true` if this update is reporting the status of a CDJ."),
  ("device-name", "(.device-name status)",
    "The name reported by the device sending the update."),
  ("device-number", "(.device-number status)",
    "The player/device number sending the update."),
  ("effective-tempo", "(.effective-tempo status)",
    "The effective tempo reflected by this update, which reflects both its track BPM " ++
    "and pitch as needed."),
  ("mixer?", "(or (instance? :mixer-status status)" ++
      " (and (instance? :beat status) (> (.device-number status) 32)))",
    "Will be `true` if this update is reporting the status of a mixer."),
  ("timestamp", "(.timestamp status)",
    "Records the millisecond at which we received this update.")]

/-- The own symbols for beats. -/
def beat : List (String × String × String) := [
  pitchMultiplier,
  pitchPercent,
  rawBpm,
  rawPitch,
  ("tempo-master?", "(.is-tempo-master status)",
    "Was this beat sent by the current tempo master?"),
  trackBpm]

/-- The own symbols for mixers. -/
def mixerStatus : List (String × String × String) := [
  rawBpm,
  ("tempo-master?", "(.is-tempo-master status)",
    "Is this mixer the current tempo master?"),
  trackBpm]

/-- The own symbols for players. -/
def cdjStatus : List (String × String × String) := [
  ("at-end?", "(.is-at-end status)",
    "Is the player currently stopped at the end of a track?"),
  ("beat-number", "(.beat-number status)",
    "The beat of the track being played. Starts at 1 and increments on each beat; 0 " ++
    "while paused at the start of the track, and -1 when the track was not analyzed by " ++
    "rekordbox."),
  ("busy?", "(.is-busy status)",
    "Will be `true` if the player is doing anything."),
  ("cue-countdown", "(.cue-countdown status)",
    "How many beats away is the next cue point in the track? 511 when there is none " ++
    "within 64 bars; counts down to 0 on the beat of the cue point."),
  ("cue-countdown-text", "(.format-cue-countdown status)",
    "`cue-countdown` formatted the way it is displayed on the player."),
  ("cued?", "(.is-cued status)",
    "Is the player currently cued (paused at the cue point)?"),
  ("looping?", "(.is-looping status)",
    "Is the player currently playing a loop?"),
  ("on-air?", "(.is-on-air status)",
    "Is the CDJ on the air? A player is on the air when it is connected to a mixer " ++
    "channel that is not faded out."),
  ("paused?", "(.is-paused status)",
    "Is the player currently paused?"),
  pitchMultiplier,
  pitchPercent,
  ("playing?", "(.is-playing status)",
    "Is the player currently playing a track?"),
  rawBpm,
  rawPitch,
  ("rekordbox-id", "(.rekordbox-id status)",
    "The rekordbox id of the loaded track; 0 if no track is loaded, or the track " ++
    "number for an ordinary audio CD."),
  ("synced?", "(.is-synced status)",
    "Is the player currently in Sync mode?"),
  ("tempo-master?", "(.is-tempo-master status)",
    "Is this player the current tempo master?"),
  trackBpm,
  ("track-number", "(.track-number status)",
    "The track number of the loaded track within a playlist or other scrolling list in " ++
    "the player's browse interface."),
  ("track-source-player", "(.track-source-player status)",
    "Which player was the track loaded from? The device number, or 0 if there is no " ++
    "track loaded."),
  ("track-source-slot", "(track-source-slot status)",
    "Which slot was the track loaded from? One of `:no-track`, `:cd-slot`, `:sd-slot`, " ++
    "`:usb-slot`, `:collection` or `:unknown`."),
  ("track-type", "(track-type status)",
    "What kind of track was loaded? One of `:no-track`, `:cd-digital-audio`, " ++
    "`:rekordbox` or `:unknown`.")]

/-- The texts from which the standard catalog is made. -/
def layout : CatalogLayout := [
  (.deviceUpdate, ⟨deviceUpdate, []⟩),
  (.beat, ⟨beat, [.deviceUpdate]⟩),
  (.mixerStatus, ⟨mixerStatus, [.deviceUpdate]⟩),
  (.cdjStatus, ⟨cdjStatus, [.deviceUpdate]⟩)]

end Standard

/-- The standard catalog. -/
def standard : Catalog :=
  match build? Standard.layout with
  | .ok catalog => catalog
  | .error _ => []

end Catalog

end CueScript
