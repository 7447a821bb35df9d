import Librespot.Ids
import Mathlib.Data.Option.Basic

/-!
# What the daemon remembers (`daemon/player_state.go`)

`state.player` is the message that controllers are sent. Of its fields these are
the ones that some handler reads back. Times are in milliseconds.
-/

namespace Librespot.Daemon

structure ContextPlayerOptions where
  shufflingContext : Bool := false
  repeatingContext : Bool := false
  repeatingTrack : Bool := false
deriving DecidableEq, Repr

structure PlayOrigin where
  featureIdentifier : String := ""
  deviceIdentifier : String := ""
deriving DecidableEq, Repr

structure PlayerState where
  timestamp : Int := 0
  positionAsOfTimestamp : Int := 0
  /-- A float in the source, where only 0 and 1 are ever assigned to it. -/
  playbackSpeed : Int := 0
  isPlaying : Bool := false
  isPaused : Bool := false
  isBuffering : Bool := false
  /-- A transfer can leave this nil. Reading it then panics. -/
  options : Option ContextPlayerOptions := none
  playOrigin : Option PlayOrigin := none
  track : Option ProvidedTrack := none
  contextUri : String := ""
deriving DecidableEq, Repr

namespace PlayerState

def trackUri (s : PlayerState) : String := (s.track.map ProvidedTrack.uri).getD ""

def trackUid (s : PlayerState) : String := (s.track.map ProvidedTrack.uid).getD ""

def fresh : PlayerState := { playbackSpeed := 1, options := some {}, playOrigin := some {} }

def setPaused (val : Bool) (s : PlayerState) : PlayerState :=
  { s with isPaused := val, playbackSpeed := if val then 0 else 1 }

def moveTo (now position : Int) (s : PlayerState) : PlayerState :=
  { s with timestamp := now, positionAsOfTimestamp := position }

def maxReasonableElapsed : Int := 10 * 60 * 1000

def trackPosition (now : Int) (s : PlayerState) : Int :=
  if s.isPaused ∨ ¬ s.isPlaying then s.positionAsOfTimestamp
  else
    let elapsed := now - s.timestamp
    if elapsed > maxReasonableElapsed ∨ elapsed < 0 then s.positionAsOfTimestamp
    else
      let calculated := s.positionAsOfTimestamp + elapsed
      if calculated < 0 then s.positionAsOfTimestamp else calculated

def updateTimestamp (now : Int) (s : PlayerState) : PlayerState :=
  let advancedTimeMillis := now - s.timestamp
  let advancedPositionMillis := advancedTimeMillis * s.playbackSpeed
  { s with
    positionAsOfTimestamp := s.positionAsOfTimestamp + advancedPositionMillis
    timestamp := now }

end PlayerState

abbrev ListId := Nat

structure State where
  active : Bool := false
  player : PlayerState := .fresh
  tracks : Option ListId := none
  queueID : Nat := 0
  activationTimestamp : Int := 0
  lastClusterTimestamp : Int := 0
deriving DecidableEq, Repr

namespace State

def setActive (val : Bool) (s : State) : State := { s with active := val }

def takeOver (s : State) : State :=
  let s := if s.active then s else { s with activationTimestamp := s.lastClusterTimestamp }
  s.setActive true

@[simp] theorem takeOver_player (s : State) : s.takeOver.player = s.player := by
  unfold takeOver
  split <;> rfl

@[simp] theorem takeOver_tracks (s : State) : s.takeOver.tracks = s.tracks := by
  unfold takeOver
  split <;> rfl

def reset (s : State) : State := { s with active := false, player := .fresh }

end State

end Librespot.Daemon
