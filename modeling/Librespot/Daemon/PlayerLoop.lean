import Librespot.Daemon.Controls

/-!
# The player loop (`daemon/player.go`)

The loop handles one message at a time, while the lane's goroutine takes jobs, runs
them and delivers their results. A run is any interleaving of the two. Closing the
player is not part of these runs.
-/

open Librespot.Tracks

namespace Librespot.Daemon

structure TransferCommand where
  state : TransferState
  sentBy : String := ""
  restorePaused : String := ""
  restoreTrack : String := ""
  retainSession : String := ""

structure PlayCommand where
  context : Context
  playOrigin : Option PlayOrigin := some {}
  sentBy : String := ""
  trackUid : String := ""
  trackUri : String := ""
  trackIndex : Int := 0
  initiallyPaused : Bool := false
  playerOptionsOverride : Option ContextPlayerOptions := none

structure ApiPlayRequest where
  uri : String
  position : Int := 0
  paused : Bool := false
  skipToUri : String := ""

structure TimerType where
  type : String := ""
  durationS : Int := 0
deriving DecidableEq, Repr

def PlayCommand.skipTo (req : PlayCommand) : Option SkipTo :=
  if req.trackUri = "" ∧ req.trackUid = "" ∧ req.trackIndex ≤ 0 then none
  else some fun index track =>
    if req.trackUid ≠ "" ∧ req.trackUid = track.uid then some true
    else if req.trackUri ≠ "" ∧ req.trackUri = track.uri then some true
    else if req.trackIndex ≠ 0 ∧ req.trackUri = "" ∧ req.trackUid = "" then
      some (index = req.trackIndex)
    else some false

def ApiPlayRequest.skipTo (data : ApiPlayRequest) : Option (Option SkipTo) :=
  if data.skipToUri = "" then some none
  else do
    let skipToId ← spotifyIdFromUri data.skipToUri
    some (some fun _ track =>
      if track.uri ≠ "" then some (data.skipToUri = track.uri)
      else if track.gid ≠ [] then skipToId.toOption.map fun id => id.id = track.gid
      else some false)

inductive Command
  | transfer (req : TransferCommand)
  | play (req : PlayCommand)
  | apiPlay (data : ApiPlayRequest)
  | resume
  | pause
  | seek (position : Int)
  | skipPrev (allowSeeking : Bool)
  | skipNext (track : Option ContextTrack)
  | setOptions (repeatingContext repeatingTrack shufflingContext : Option Bool) (modes : Bool)
  | setQueue (next : Option (List ContextTrack))
  | addToQueue (track : ContextTrack)
  | setSleepTimer (endOfTrack : Bool)
  | stop

structure Cluster where
  activeDeviceId : String
  playerState : Option Int
deriving DecidableEq, Repr

namespace AppPlayer

variable (cfg : Config) (m : Moment)

def transferContinues (req : TransferCommand) (p : AppPlayer) : Option Bool :=
  match req.state.playback.currentTrack, p.primaryStream with
  | some current, some stream =>
    if req.retainSession ≠ "retain_original" ∨ ¬ p.state.active then some false
    else do
      match ← singleTrackContext current with
      | none => some false
      | some named =>
        let playing := p.state.player.trackUid
        some (named.uri = (← stream.requestedId.uri) ∧
          ¬ (current.uid ≠ "" ∧ playing ≠ "" ∧ current.uid ≠ playing))
  | _, _ => some false

/-- The track that a transfer announces: the one it carries, if that can be named. -/
def announcedTrack (state : TransferState) : Option (Option ProvidedTrack) := do
  let typ := inferSpotifyIdTypeFromContext state.context
  match state.playback.currentTrack, ← singleTrackContext state.playback.currentTrack with
  | some current, some _ => (contextTrackToProvidedTrack typ current).map some
  | _, _ => some none

def claimTransfer (playback : Playback) (pause : Bool) (track : Option ProvidedTrack)
    (s : PlayerState) : PlayerState :=
  { (s.moveTo playback.timestamp playback.positionAsOfTimestamp).setPaused pause with
    track, isPlaying := true, isBuffering := true, playbackSpeed := 0 }

def takeTransfer (req : TransferCommand) (p : AppPlayer) : Option AppPlayer := do
  let pause := req.state.playback.isPaused && req.restorePaused ≠ "resume"
  if ← p.transferContinues req then some (p.transferContext req.state req.sentBy pause true)
  else
    let track ← announcedTrack req.state
    let p := { p with state := p.state.setActive true }.applyTransferSession req.state req.sentBy
    let p := p.updatePlayer (claimTransfer req.state.playback pause track)
    some (p.transferContext req.state req.sentBy pause false)

def transfer (req : TransferCommand) (p : AppPlayer) : Option AppPlayer := do
  let p := { p with state.activationTimestamp := req.state.playback.timestamp }
  if emptyContext req.state.context then
    match ← singleTrackContext req.state.playback.currentTrack with
    | some context => p.takeTransfer { req with state.context := context }
    | none =>
      if req.restoreTrack = "always_play_something" then
        ({ p with state := p.state.setActive true }).abandonTransfer m
      else some p
  else p.takeTransfer req

/-! ## The other messages -/

def playCommand (req : PlayCommand) (p : AppPlayer) : Option AppPlayer := do
  -- Without an origin the source dereferences nil.
  let playOrigin ← req.playOrigin
  let p := { p with state := p.state.takeOver }
  let p := p.updatePlayer fun s =>
    { s with playOrigin := some { playOrigin with deviceIdentifier := req.sentBy } }
  let options ← p.state.player.options
  let options := req.playerOptionsOverride.getD options
  let p := p.withOptions (some options)
  p.loadContext m req.context req.skipTo req.initiallyPaused true .log

def apiPlay (data : ApiPlayRequest) (p : AppPlayer) : Option AppPlayer := do
  let skipTo ← data.skipTo
  let { uri, position, paused, .. } := data
  some (p.submitLoad (.apiPlay { uri, position, paused, skipTo }))

def handleCommand (p : AppPlayer) : Command → Option AppPlayer
  | .transfer req => p.transfer m req
  | .play req => p.playCommand m req
  | .apiPlay data => p.apiPlay data
  | .resume => some (p.play m)
  | .pause => some (p.pause m)
  | .seek position => some (p.seek m position)
  | .skipPrev allowSeeking => some (p.skipPrev cfg m allowSeeking)
  | .skipNext track => p.skipNext cfg m track
  | .setOptions repeatingContext repeatingTrack shufflingContext modes => do
    let p ← p.setOptions repeatingContext repeatingTrack shufflingContext
    some (if modes then p.setModes else p)
  | .setQueue next => some (p.setQueue next)
  | .addToQueue track => some (p.addToQueue track)
  | .setSleepTimer endOfTrack => some { p with sleepAtEndOfTrack := endOfTrack }
  | .stop => some p.stopPlayback

/-- An update without a cluster, or without a player state, is dereferenced by an active device. -/
def handleCluster (cluster : Option Cluster) (p : AppPlayer) : Option AppPlayer :=
  if p.state.active then do
    let cluster ← cluster
    if cluster.activeDeviceId = cfg.deviceId then some p
    else
      let timestamp ← cluster.playerState
      some (if timestamp > p.state.activationTimestamp then p.stopPlayback else p)
  else
    let timestamp := (cluster.bind Cluster.playerState).getD 0
    some { p with state.lastClusterTimestamp := timestamp }

end AppPlayer

/-- One step of the loop or of the lane's goroutine, with all that it is answered. -/
inductive Op
  | command (m : Moment) (cmd : Command)
  | event (m : Moment) (ev : PlayerEvent)
  | cluster (cluster : Option Cluster)
  | prefetchTimer
  | sleepTimer (m : Moment)
  | receive (m : Moment)
  /-- The loop goes on with the events that it held. -/
  | drain (m : Moment)
  | take (clock : Nat → Int)
  | finish (a : Answers)
  | deliver

instance (op : Op) {P : Prop} [Decidable P] : Decidable (∀ m ev, op = .event m ev → P) :=
  match op with
  | .event m ev => decidable_of_iff P ⟨fun h _ _ _ => h, fun h => h m ev rfl⟩
  | .command .. | .cluster _ | .prefetchTimer | .sleepTimer _ | .receive _ | .drain _ | .take _
  | .finish _ | .deliver => .isTrue (by simp)

instance (op : Op) {P : Answers → Prop} [DecidablePred P] :
    Decidable (∀ a, op = .finish a → P a) :=
  match op with
  | .finish a => decidable_of_iff (P a) (by simp)
  | .command .. | .event .. | .cluster _ | .prefetchTimer | .sleepTimer _ | .receive _ | .drain _
  | .take _ | .deliver => .isTrue (by simp)

instance (op : Op) (results : List LoaderResult) {P : LoaderResult → Prop} [DecidablePred P] :
    Decidable (∀ m res rest, op = .receive m → results = res :: rest → P res) :=
  match op, results with
  | .receive m, res :: rest => decidable_of_iff (P res)
      ⟨fun h _ _ _ _ heq => (List.cons.inj heq).1 ▸ h, fun h => h m res rest rfl rfl⟩
  | .receive _, [] | .command .., _ | .event .., _ | .cluster _, _ | .prefetchTimer, _
  | .sleepTimer _, _ | .drain _, _ | .take _, _ | .finish _, _ | .deliver, _ => .isTrue (by simp)

def loaderResultsSize : Nat := 4

namespace AppPlayer

variable (cfg : Config)

def handle (p : AppPlayer) : Op → Option AppPlayer
  | .command m cmd => p.handleCommand cfg m cmd
  | .event m ev => p.receivePlayerEvent cfg m ev
  | .cluster cluster => p.handleCluster cfg cluster
  | .prefetchTimer => p.prefetchNext
  | .sleepTimer m => some (p.pause m)
  | .receive m =>
    match p.results with
    | [] => none
    | res :: results => { p with results }.applyLoaderResult cfg m res
  | _ => none

def take (clock : Nat → Int) (p : AppPlayer) : Option AppPlayer :=
  match p.worker, p.loader.next clock with
  | .idle, (some job, loader) => some { p with loader, worker := .running job }
  | _, _ => none

/-- Fetching a track hands its stream to the audio player, before the loop hears of it. -/
def handOver (a : Answers) (work : Work) (audio : Player.ManageLoop) : Player.ManageLoop :=
  match work, a.stream with
  | .load job, .ok _ =>
    { audio with out := true }.setPrimary true { works := !a.outputLost } job.paused
  | .load _, .error _ =>
    if a.setFails then { audio with streamGen := audio.streamGen + 1, out := false } else audio
  | _, _ => audio

def finish (g : Tracks.Rand) (a : Answers) (p : AppPlayer) : Option AppPlayer :=
  match p.worker with
  | .running job => do
    let (commit, lists) ← runWork g a p.lists job.run
    some { p with
      lists, loader := p.loader.finished, worker := .delivering { job, commit }
      audio := handOver a job.run p.audio }
  | _ => none

def deliver (p : AppPlayer) : Option AppPlayer :=
  match p.worker with
  | .delivering res =>
    if p.results.length < loaderResultsSize then
      some { p with results := p.results ++ [res], worker := .idle }
    else none
  | _ => none

def step (g : Tracks.Rand) (p : AppPlayer) : Op → Option AppPlayer
  | .take clock => p.take clock
  | .finish a => p.finish g a
  | .deliver => p.deliver
  | .drain m =>
    match p.draining with
    | [] => none
    | ev :: draining => { p with draining }.handlePlayerEvent cfg m ev
  | op => if p.draining = [] then p.handle cfg op else none

end AppPlayer

/-! ## Runs with the audio player -/

/-- A step of the loop or of the lane's goroutine, or what the audio player notices by itself: that
its source has ended, or that its output has failed. -/
inductive Turn
  | loop (op : Op)
  | ended
  | outputFailed

def AppPlayer.turn (cfg : Config) (g : Tracks.Rand) (p : AppPlayer) : Turn → Option AppPlayer
  -- The loop receives the events in the order in which they were raised.
  | .loop (.event m ev) =>
    match p.audio.ev with
    | [] => none
    | next :: rest =>
      if ev = next then { p with audio.ev := rest }.step cfg g (.event m ev) else none
  -- The generation is read right after the stream was handed over.
  | .loop (.finish a) =>
    (p.step cfg g (.finish a)).filter fun p' => a.streamGen = p'.audio.streamGen
  | .loop op => p.step cfg g op
  | .ended => some (p.withAudio (.raise .notPlaying))
  | .outputFailed => if p.audio.out then some (p.withAudio .outputFailed) else none

end Librespot.Daemon
