import Librespot.Daemon.ListRuns
import Librespot.Daemon.LoadInFlight
import Librespot.Ids.RoundTrip

/-!
# The player commands of the dealer (`daemon/player.go`)

A request as the dealer has decoded it. Most of its parts may be absent, and its
value may be of any type. A transfer carries a message of its own, which is decoded
when the command is handled.
-/

open Base.Run
open Librespot.Tracks Option

namespace Librespot.Daemon

inductive Endpoint
  | transfer
  | play
  | pause
  | resume
  | seekTo
  | skipPrev
  | skipNext
  | updateContext
  | setRepeatingContext
  | setRepeatingTrack
  | setShufflingContext
  | setOptions
  | setQueue
  | addToQueue
  | setSleepTimer
  | other (name : String)
deriving DecidableEq, Repr

/-- An `interface{}` that was decoded from JSON. Of a number only the integral part is read. -/
inductive JsonValue
  | null
  | bool (val : Bool)
  | number (val : Int)
  | string (val : String)
  | array
  | object
deriving DecidableEq, Repr

structure TransferSession where
  context : Option Context := none
  playOrigin : Option PlayOrigin := none
  currentUid : String := ""
deriving DecidableEq, Repr

/-- `connectpb.TransferState`, with the parts that a sender may leave out. -/
structure TransferMessage where
  options : Option ContextPlayerOptions := none
  playback : Option Playback := none
  currentSession : Option TransferSession := none
  queue : List ContextTrack := []
  isPlayingQueue : Bool := false
deriving DecidableEq, Repr

/-- Without a playback, or without a session, a field of nil is read. An absent context is as good as
an empty one. -/
def TransferMessage.state (msg : TransferMessage) : Option TransferState := do
  let playback ← msg.playback
  let session ← msg.currentSession
  some {
    options := msg.options
    playOrigin := session.playOrigin
    playback
    context := session.context.getD {}
    currentUid := session.currentUid
    queue := msg.queue
    isPlayingQueue := msg.isPlayingQueue }

inductive TransferData
  | empty
  | malformed (err : Err)
  | message (msg : TransferMessage)
deriving DecidableEq, Repr

structure RequestPayload where
  sentByDeviceId : String := ""
  endpoint : String
  data : TransferData := .empty
  value : JsonValue := .null
  position : Int := 0
  relative : String := ""
  timerType : Option TimerType := none
  context : Option Context := none
  playOrigin : Option PlayOrigin := none
  track : Option ContextTrack := none
  nextTracks : Option (List ContextTrack) := none
  repeatingTrack : Option Bool := none
  repeatingContext : Option Bool := none
  shufflingContext : Option Bool := none
  modes : List (String × String) := []
  restorePaused : String := ""
  restoreTrack : String := ""
  retainSession : String := ""
  allowSeeking : Bool := false
  trackUid : String := ""
  trackUri : String := ""
  trackIndex : Int := 0
  initiallyPaused : Bool := false
  playerOptionsOverride : Option ContextPlayerOptions := none
deriving DecidableEq, Repr

def RequestPayload.endOfTrack (req : RequestPayload) : Bool :=
  req.timerType.any fun timer => timer.type = "end_of_track"

namespace AppPlayer

variable (cfg : Config) (m : Moment)

def TakesIdle (req : RequestPayload) (state : TransferState) : Prop :=
  state.Bare ∧ req.restoreTrack = "always_play_something"

def OptionsRead (repeatingContext repeatingTrack shufflingContext : Option Bool) (p : AppPlayer) :
    Prop :=
  repeatingContext.isSome = true ∨ repeatingTrack.isSome = true ∨
    p.state.tracks.isSome = true ∧ shufflingContext.isSome = true →
  p.state.player.options.isSome = true

def Carries (req : RequestPayload) (p : AppPlayer) : Endpoint → Prop
  | .transfer => ∀ msg, req.data = .message msg →
      msg.playback.isSome = true ∧ msg.currentSession.isSome = true ∧
      ∀ state, msg.state = some state → TakesIdle req state →
        p.primaryStream.isSome = true ∨ p.state.player.options.isSome = true
  | .play => req.context.isSome = true ∧ req.playOrigin.isSome = true ∧
      p.state.player.options.isSome = true
  | .skipNext => req.track = none →
      if p.state.tracks.isSome = true then p.state.player.options.isSome = true
      else p.autoplays cfg = false → (spotifyIdFromUri p.state.player.trackUri).isSome = true
  | .updateContext => req.context.isSome = true
  | .setRepeatingContext => ∃ val, req.value = .bool val ∧ OptionsRead (some val) none none p
  | .setRepeatingTrack => ∃ val, req.value = .bool val ∧ OptionsRead none (some val) none p
  | .setShufflingContext => ∃ val, req.value = .bool val ∧ OptionsRead none none (some val) p
  | .setOptions => OptionsRead req.repeatingContext req.repeatingTrack req.shufflingContext p
  | .addToQueue => p.state.tracks.isSome = true → req.track.isSome = true
  | _ => True

variable {cfg : Config} {m : Moment} {p : AppPlayer}

end AppPlayer

end Librespot.Daemon
