import Librespot.Daemon.Jobs
import Librespot.Player.ManageLoop

/-!
# The controls (`daemon/controls.go`)

The handlers of the player loop, as functions on the `AppPlayer`. A handler that
may panic gives `none` then. What is only told to others is left out: the API and
MPRIS events, the state pushes, the timers, the metadata of the media and the
narration.
-/

open Librespot.Tracks

namespace Librespot.Daemon

structure Config where
  deviceId : String
  skipDebounce : Int := 0
  disableAutoplay : Bool := false

structure Moment where
  now : Int
  positionMs : Int := 0
  seekFails : Bool := false
  playFails : Bool := false
  pauseFails : Bool := false
  /-- The output was discarded, by a call that failed or after an optimistic reply. -/
  outputLost : Bool := false

def Moment.reply (m : Moment) : Player.OutputReply := { works := !m.outputLost }

abbrev PlayerEvent := Player.Event

inductive Worker
  | idle
  | running (job : LoaderJob Work)
  | delivering (res : LoaderResult)

instance (w : Worker) {P : LoaderJob Work → Prop} [DecidablePred P] :
    Decidable (∀ job, w = .running job → P job) :=
  match w with
  | .running job => decidable_of_iff (P job) (by simp)
  | .idle | .delivering _ => .isTrue (by simp)

structure AppPlayer where
  state : State := {}
  loadGen : Nat := 0
  prefetchGen : Nat := 0
  loadInFlight : Bool := false
  pendingPlayerEvents : List PlayerEvent := []
  /-- The held events that `drainPendingPlayerEvents` has still to handle. -/
  draining : List PlayerEvent := []
  lastSkipAt : Option Int := none
  primaryStream : Option Stream := none
  secondaryStream : Option Stream := none
  sleepAtEndOfTrack : Bool := false
  consecutiveUnplayableSkips : Nat := 0
  loader : LoaderLane Work := {}
  worker : Worker := .idle
  results : List LoaderResult := []
  lists : List TrackList := []
  /-- The loop of the audio player, whose events the daemon receives. -/
  audio : Player.ManageLoop := {}

namespace AppPlayer

def submit (job : LoaderJob Work) (p : AppPlayer) : AppPlayer :=
  { p with loader := (p.loader.submit job).2 }

def generation (cls : LoaderClass) (p : AppPlayer) : Nat :=
  if cls = .prefetch then p.prefetchGen else p.loadGen

def listJob (cls : LoaderClass) (list : ListId) (work : ListWork) (p : AppPlayer) : AppPlayer :=
  p.submit { cls, gen := p.generation cls, run := .list list work }

def submitLoad (work : Work) (p : AppPlayer) : AppPlayer :=
  { p with loadGen := p.loadGen + 1 }.submit { cls := .load, gen := p.loadGen + 1, run := work }

def updatePlayer (f : PlayerState → PlayerState) (p : AppPlayer) : AppPlayer :=
  { p with state.player := f p.state.player }

def withOptions (options : Option ContextPlayerOptions) : AppPlayer → AppPlayer :=
  updatePlayer fun s => { s with options }

def setPaused (val : Bool) : AppPlayer → AppPlayer := updatePlayer (.setPaused val)

def publishSnapshot (snap : TrackList.Snapshot) : AppPlayer → AppPlayer :=
  updatePlayer fun s => { s with track := some snap.current }

def clearUpcoming (p : AppPlayer) : AppPlayer := { p with secondaryStream := none }

def invalidateUpcoming (p : AppPlayer) : AppPlayer :=
  { p with prefetchGen := p.prefetchGen + 1 }.clearUpcoming

def emitMprisUpdate (p : AppPlayer) : Option AppPlayer := p.state.player.options.map fun _ => p

def withAudio (f : Player.ManageLoop → Player.ManageLoop) (p : AppPlayer) : AppPlayer :=
  { p with audio := f p.audio }

def failed (m : Moment) : AppPlayer → AppPlayer :=
  withAudio fun audio => if m.outputLost then audio.closeOutput else audio

def play (m : Moment) (p : AppPlayer) : AppPlayer :=
  match p.primaryStream with
  | none => if p.loadInFlight then p.setPaused false else p
  | some _ =>
    if m.seekFails ∨ m.playFails then p.failed m
    else
      let p := p.withAudio fun audio => (audio.seek true {}).play true m.reply
      p.updatePlayer fun s => (s.moveTo m.now m.positionMs).setPaused false

def pause (m : Moment) (p : AppPlayer) : AppPlayer :=
  match p.primaryStream with
  | none => if p.loadInFlight then p.setPaused true else p
  | some _ =>
    if m.pauseFails then p.failed m
    else
      let p := p.withAudio (.pause true m.reply)
      p.updatePlayer fun s => (s.moveTo m.now m.positionMs).setPaused true

def seek (m : Moment) (position : Int) (p : AppPlayer) : AppPlayer :=
  match p.primaryStream with
  | none => p
  | some stream =>
    if m.seekFails then p.failed m
    else
      let p := p.withAudio (.seek true m.reply)
      p.updatePlayer (.moveTo m.now (max 0 (min position stream.duration)))

def maxPlaybackElapsed : Int := 10 * 60 * 1000

def transferSeekTolerance : Nat := 3000

def wantedPosition (now : Int) (playback : Playback) : Int :=
  let elapsed := now - playback.timestamp
  if ¬ playback.isPaused ∧ elapsed > 0 ∧ elapsed < maxPlaybackElapsed then
    playback.positionAsOfTimestamp + elapsed
  else playback.positionAsOfTimestamp

def followPosition (m : Moment) (want : Int) (p : AppPlayer) : AppPlayer :=
  if (want - p.state.player.trackPosition m.now).natAbs > transferSeekTolerance then p.seek m want
  else p

def followPaused (m : Moment) (paused : Bool) (p : AppPlayer) : AppPlayer :=
  if paused ∧ ¬ p.state.player.isPaused then p.pause m
  else if ¬ paused ∧ p.state.player.isPaused then p.play m
  else p.setPaused paused

def continuePlayback (m : Moment) (playback : Playback) (paused : Bool) (p : AppPlayer) :
    AppPlayer :=
  let p := p.invalidateUpcoming.followPosition m (wantedPosition m.now playback)
  let p := p.updatePlayer fun s => { s with isPlaying := true, isBuffering := false }
  p.followPaused m paused

/-- The audio player is brought in line with a play or pause that came during a load. -/
def applyPaused (m : Moment) (paused : Bool) (p : AppPlayer) : AppPlayer :=
  if paused then
    if m.pauseFails then p.failed m else p.withAudio (.pause true m.reply)
  else if m.playFails then p.failed m
  else p.withAudio (.play true m.reply)

def commitLoad (m : Moment) (stream : Stream) (paused : Bool) (position : Int) (p : AppPlayer) :
    AppPlayer :=
  -- A play or pause that came while this was loading wins over what the load was asked for.
  let asked := p.state.player.isPaused
  let p := if asked = paused then p else p.applyPaused m asked
  { p with primaryStream := some stream }.updatePlayer fun s =>
    { s.moveTo m.now position with isPlaying := true, isBuffering := false }.setPaused asked

def commitPrefetch (stream : Stream) (p : AppPlayer) : AppPlayer :=
  { p with secondaryStream := some stream }

/-! ## What a callback does that does not have to skip a track -/

/-- Calls `k` with no error, or with one that is not about the media. -/
def settle (m : Moment) : Then → Bool → Option LoadErr → AppPlayer → Option AppPlayer
  | .log, _, _, p => some p
  | .apiPlay _ _, _, some _, p => some p
  | .apiPlay position paused, _, none, p =>
    if position ≤ 0 then some p
    else if paused then some (p.seek m position)
    else some ((p.seek m position).play m)
  | .autoplayLoaded k, _, err, p => settle m k err.isNone none p
  | .orSkip _ k, hasNext, err, p => settle m k hasNext err p
  | .orSkipped k, hasNext, err, p => settle m k hasNext err p
  | .advanced hasNext _ k, _, err, p =>
    settle m k (hasNext && err.isNone) err { p with consecutiveUnplayableSkips := 0 }
  | .playerEnd, hasNext, _, p => if hasNext then some p else p.emitMprisUpdate
  | .skipNext, _, _, p => some p

/-! ## Loading the current track -/

def loadCurrentTrack (m : Moment) (paused drop resume : Bool) (delay : Int) (k : Then)
    (p : AppPlayer) : Option AppPlayer := do
  let p := { p with primaryStream := none }
  match ← spotifyIdFromUri p.state.player.trackUri with
  | .error err => p.settle m k false (some (.plain "failed parsing uri: " err))
  | .ok spotId =>
    if spotId.typ ≠ "track" ∧ spotId.typ ≠ "episode" then
      let text := "unsupported spotify type: " ++ spotId.typ
      p.settle m k false (some { err := { text } })
    else
      let position := p.state.player.trackPosition m.now
      let fromStart := decide (p.state.player.positionAsOfTimestamp = 0)
      let prefetched := p.secondaryStream.filter fun stream => stream.is spotId
      let p := p.updatePlayer fun s =>
        { s.updateTimestamp m.now with
          isPlaying := true, isBuffering := true, isPaused := paused, playbackSpeed := 0 }
      let p := {
        p with
        loadGen := p.loadGen + 1, prefetchGen := p.prefetchGen + 1, secondaryStream := none
        loadInFlight := true }
      let job : LoadJob := { spotId, position, fromStart, paused, drop, resume, prefetched, k }
      let notBefore := if delay > 0 then some (m.now + delay) else none
      some (p.submit { cls := .load, gen := p.loadGen, run := .load job, notBefore })

def loadCurrentTrackOrSkip (m : Moment) (paused drop resume : Bool) (k : Then) :
    AppPlayer → Option AppPlayer :=
  loadCurrentTrack m paused drop resume 0 (.orSkip drop k)

/-! ## Loading a context -/

def restrict (r : Restrictions) (options : ContextPlayerOptions) : ContextPlayerOptions where
  shufflingContext := options.shufflingContext && !r.togglingShuffle
  repeatingTrack := options.repeatingTrack && !r.togglingRepeatTrack
  repeatingContext := options.repeatingContext && !r.togglingRepeatContext

def upcomingQueue (p : AppPlayer) : Option (List ContextTrack) :=
  match p.state.tracks with
  | none => some []
  | some id => p.lists[id]?.bind TrackList.upcomingQueue

def claimContext (now : Int) (uri : String) (options : ContextPlayerOptions) (paused : Bool)
    (s : PlayerState) : PlayerState :=
  { (s.setPaused paused).moveTo now 0 with
    contextUri := uri, options := some options, track := none
    isPlaying := true, isBuffering := true, playbackSpeed := 0 }

def loadContext (m : Moment) (context : Context) (skipTo : Option SkipTo) (paused drop : Bool)
    (k : Then) (p : AppPlayer) : Option AppPlayer := do
  let options := restrict context.restrictions (← p.state.player.options)
  let p := p.updatePlayer (claimContext m.now context.uri options paused)
  let queued ← p.upcomingQueue
  let shuffle := options.shufflingContext
  some (p.submitLoad (.resolve { context, skipTo, shuffle, queued, paused, drop, k }))

/-- A session without an origin gets an empty one, but one without options leaves none. -/
def applyTransferSession (state : TransferState) (sentBy : String) : AppPlayer → AppPlayer :=
  updatePlayer fun s =>
    { s with
      options := state.options
      playOrigin := some { state.playOrigin.getD {} with deviceIdentifier := sentBy }
      contextUri := state.context.uri }

/-- Stopping the stream is announced by the player, and its absence by the daemon. -/
def dropStream (p : AppPlayer) : Option AppPlayer :=
  if p.primaryStream.isSome then
    let p := p.withAudio .stop
    some { p with prefetchGen := p.prefetchGen + 1, primaryStream := none, secondaryStream := none }
  else p.emitMprisUpdate

def abandonTransfer (m : Moment) (p : AppPlayer) : Option AppPlayer := do
  let p ← p.dropStream
  let p := { p with state.tracks := none, state.queueID := 0 }
  some (p.updatePlayer fun s =>
    (({ s with contextUri := "", track := none, isPlaying := false, isBuffering := false }).setPaused
      false).moveTo m.now 0)

def transferContext (state : TransferState) (sentBy : String) (paused continuation : Bool)
    (p : AppPlayer) : AppPlayer :=
  p.submitLoad (.transfer { state, sentBy, paused, continuation, stream := p.primaryStream })

def keepsStream (job : TransferJob) (p : AppPlayer) : Bool :=
  job.continuation && p.primaryStream.isSome && p.primaryStream = job.stream

/-- The session and the tracks of a transfer. One that is no continuation has claimed its session
when it came. A continuation that cannot keep its stream is loaded from where it says. -/
def installTransfer (job : TransferJob) (list : ListId) (snap : TrackList.Snapshot)
    (played : Option Context) (p : AppPlayer) : AppPlayer :=
  let playback := job.state.playback
  let p :=
    if job.continuation && !p.keepsStream job then
      p.updatePlayer fun s =>
        (s.moveTo playback.timestamp playback.positionAsOfTimestamp).setPaused job.paused
    else p
  let p := if job.continuation then p.applyTransferSession job.state job.sentBy else p
  let p := p.updatePlayer fun s =>
    { s with contextUri := (played.map Context.uri).getD s.contextUri }
  { p with
    state.queueID := highestQueueID job.state.queue
    state.tracks := some list }.publishSnapshot snap

def transferred (m : Moment) (job : TransferJob) (list : ListId) (snap : TrackList.Snapshot)
    (played : Option Context) (p : AppPlayer) : Option AppPlayer :=
  let installed := p.installTransfer job list snap played
  if p.keepsStream job then some (installed.continuePlayback m job.state.playback job.paused)
  else installed.loadCurrentTrackOrSkip m job.paused true false .log

/-! ## Options and the queue -/

def setOption (val : Option Bool) (old : Bool) : Bool × Bool :=
  match val with
  | some val => (val, val ≠ old)
  | none => (old, false)

/-- Without options the source panics as soon as it compares one of them. -/
def setOptions (repeatingContext repeatingTrack shufflingContext : Option Bool) (p : AppPlayer) :
    Option AppPlayer :=
  match p.state.player.options with
  | none =>
    if repeatingContext.isSome ∨ repeatingTrack.isSome ∨
        p.state.tracks.isSome ∧ shufflingContext.isSome then none
    else some p
  | some options =>
    let (repeatingContext, changedContext) := setOption repeatingContext options.repeatingContext
    let (repeatingTrack, changedTrack) := setOption repeatingTrack options.repeatingTrack
    let options := { options with repeatingContext, repeatingTrack }
    match p.state.tracks, setOption shufflingContext options.shufflingContext with
    | some list, (shuffle, true) =>
      -- The option shows the new value at once. The walk that follows can fail or be refused.
      let p := p.withOptions (some { options with shufflingContext := shuffle })
      some (p.listJob .mutate list (.shuffle shuffle)).invalidateUpcoming
    | _, _ =>
      let p := p.withOptions (some options)
      some (if changedContext || changedTrack then p.invalidateUpcoming else p)

/-- `setModes` with at least one mode. The modes themselves are only published. -/
def setModes (p : AppPlayer) : AppPlayer :=
  p.withOptions (some (p.state.player.options.getD {}))

def addToQueue (track : ContextTrack) (p : AppPlayer) : AppPlayer :=
  match p.state.tracks with
  | none => p
  | some list =>
    if track.uid = "" then
      let queueID := (p.state.queueID + 1) % 2 ^ 64
      { p with state.queueID := queueID }.listJob .mutate list
        (.addToQueue { track with uid := s!"q{queueID}" })
    else p.listJob .mutate list (.addToQueue track)

def setQueue (next : Option (List ContextTrack)) (p : AppPlayer) : AppPlayer :=
  match p.state.tracks with
  | none => p
  | some list => p.listJob .mutate list (.setQueue next)

variable (cfg : Config)

def startAutoplay (m : Moment) (seed : List String) (drop : Bool) (k : Then) (p : AppPlayer) :
    Option AppPlayer :=
  if seed = [] then p.settle m k false none
  else some (p.submitLoad (.station p.state.player.contextUri seed drop k))

def autoplays (p : AppPlayer) : Bool :=
  !cfg.disableAutoplay && !"spotify:station:".toList.isPrefixOf p.state.player.contextUri.toList

def stopUnless (hasNext : Bool) : AppPlayer → AppPlayer :=
  updatePlayer fun s =>
    if hasNext then s else { s with isPlaying := false, isPaused := false, isBuffering := false }

def advanceTo (m : Moment) (hasNext : Bool) (seed : List String) (drop : Bool) (delay : Int)
    (k : Then) (p : AppPlayer) : Option AppPlayer :=
  let p := p.updatePlayer (.moveTo m.now 0)
  if ¬ hasNext ∧ p.autoplays cfg then p.startAutoplay m seed drop k
  else
    (p.stopUnless hasNext).loadCurrentTrack m (!hasNext) drop true delay (.advanced hasNext drop k)

def advanceNext (m : Moment) (forceNext drop : Bool) (delay : Int) (k : Then) (p : AppPlayer) :
    Option AppPlayer :=
  match p.state.tracks with
  | none => p.advanceTo cfg m false [] drop delay k
  | some list => do
    let options ← p.state.player.options
    if ¬ forceNext ∧ options.repeatingTrack then
      (p.updatePlayer fun s => { s with isPaused := false }).advanceTo cfg m true [] drop delay k
    else
      let p := { p with loadGen := p.loadGen + 1 }
      some (p.listJob .nav list (.advance options.repeatingContext drop delay k))

def skipDelay (now : Int) (lastSkip : Option Int) : Int :=
  match lastSkip with
  | none => 0
  | some lastSkip =>
    if cfg.skipDebounce > 0 ∧ now - lastSkip < cfg.skipDebounce then cfg.skipDebounce else 0

def skipPrev (m : Moment) (allowSeeking : Bool) (p : AppPlayer) : AppPlayer :=
  if allowSeeking ∧ ¬ p.loadInFlight ∧ m.positionMs > 3000 then p.seek m 0
  else
    match p.state.tracks with
    | none => p
    | some list =>
      let delay := skipDelay cfg m.now p.lastSkipAt
      let p := { p with lastSkipAt := some m.now, loadGen := p.loadGen + 1 }
      p.listJob .nav list (.skipPrev delay)

def skipNext (m : Moment) (track : Option ContextTrack) (p : AppPlayer) : Option AppPlayer :=
  let delay := skipDelay cfg m.now p.lastSkipAt
  let p := { p with lastSkipAt := some m.now }
  match track with
  | none => p.advanceNext cfg m true true delay .skipNext
  | some track =>
    match p.state.tracks with
    | none => some p
    | some list =>
      some ({ p with loadGen := p.loadGen + 1 }.listJob .load list (.skipTo track delay))

/-! ## What a callback does that may have to skip a track -/

def maxConsecutiveUnplayableSkips : Nat := 50

/-- Calls `k` with an error that is about the media. -/
def land (m : Moment) : Then → LoadErr → AppPlayer → Option AppPlayer
  | .orSkip drop k, _, p => p.advanceNext cfg m true drop 0 (.orSkipped k)
  | .advanced _ drop k, err, p =>
    let skips := p.consecutiveUnplayableSkips + 1
    if skips > maxConsecutiveUnplayableSkips then
      land m k err { p with consecutiveUnplayableSkips := 0 }
    else { p with consecutiveUnplayableSkips := skips }.advanceNext cfg m true drop 0 k
  | .orSkipped k, err, p => land m k err p
  | .autoplayLoaded k, _, p => p.settle m k false none
  | k, err, p => p.settle m k false (some err)

def call (m : Moment) (k : Then) (err : LoadErr) (p : AppPlayer) : Option AppPlayer :=
  if err.unplayable then p.land cfg m k err else p.settle m k false (some err)

/-! ## Prefetching and stopping -/

def submitPrefetch (uri : String) (p : AppPlayer) : Option AppPlayer := do
  if uri = "" then some p
  else
    match ← spotifyIdFromUri uri with
    | .error _ => some p
    | .ok id =>
      if p.secondaryStream.any fun stream => stream.is id then some p
      else some (p.submit { cls := .prefetch, gen := p.prefetchGen, run := .prefetch id })

def prefetchNext (p : AppPlayer) : Option AppPlayer := do
  let options ← p.state.player.options
  if options.repeatingTrack then p.submitPrefetch p.state.player.trackUri
  else
    match p.state.tracks with
    | none => some p
    | some list => some (p.listJob .prefetch list .peekNext)

def stopPlayback (p : AppPlayer) : AppPlayer :=
  { p with
    loadGen := p.loadGen + 1
    prefetchGen := p.prefetchGen + 1
    loader := p.loader.dropLoads.2
    loadInFlight := false
    pendingPlayerEvents := []
    primaryStream := none
    secondaryStream := none
    state := p.state.reset
    audio := p.audio.stop }

/-! ## The events of the player -/

def playbackChanged (paused : Bool) (p : AppPlayer) : Option AppPlayer :=
  (p.updatePlayer fun s =>
    { { s with isPlaying := true }.setPaused paused with isBuffering := false }).emitMprisUpdate

def handlePlayerEvent (m : Moment) (ev : PlayerEvent) (p : AppPlayer) : Option AppPlayer :=
  match ev.type with
  | .play | .resume => p.playbackChanged false
  | .pause => p.playbackChanged true
  | .notPlaying =>
    if p.sleepAtEndOfTrack then some ({ p with sleepAtEndOfTrack := false }.pause m)
    else p.advanceNext cfg m false false 0 .playerEnd
  | .stop => p.emitMprisUpdate

def maxPendingPlayerEvents : Nat := 32

def receivePlayerEvent (m : Moment) (ev : PlayerEvent) (p : AppPlayer) : Option AppPlayer :=
  if p.loadInFlight then
    if p.pendingPlayerEvents.length ≥ maxPendingPlayerEvents then some p
    else some { p with pendingPlayerEvents := p.pendingPlayerEvents ++ [ev] }
  else p.handlePlayerEvent cfg m ev

def forgetReplacedStreamEvents (gen : Nat) (p : AppPlayer) : AppPlayer :=
  { p with
    pendingPlayerEvents := p.pendingPlayerEvents.filter fun ev =>
      ev.streamGen ≥ gen || !(ev.type = .notPlaying || ev.type = .stop) }

def drainPendingPlayerEvents (p : AppPlayer) : AppPlayer :=
  { p with draining := p.pendingPlayerEvents, pendingPlayerEvents := [] }

/-! ## Results of the loader -/

def skipLanded (m : Moment) (snap : TrackList.Snapshot) (delay : Int) (p : AppPlayer) :
    Option AppPlayer :=
  let p := (p.publishSnapshot snap).updatePlayer (.moveTo m.now 0)
  p.loadCurrentTrack m p.state.player.isPaused true true delay .log

def listFailed (m : Moment) (work : ListWork) (err : LoadErr) (p : AppPlayer) : Option AppPlayer :=
  match work with
  | .shuffle val => do
    let options ← p.state.player.options
    some (p.withOptions (some { options with shufflingContext := !val }))
  | .advance _ _ _ k => p.settle m k false (some err)
  | _ => some p

def listWalked (m : Moment) (work : ListWork) (res : Walked) (snap : TrackList.Snapshot)
    (p : AppPlayer) : Option AppPlayer :=
  match work with
  | .peekNext => p.submitPrefetch ((res.next.map ContextTrack.uri).getD "")
  | .shuffle _ => some (p.publishSnapshot snap).invalidateUpcoming
  | .addToQueue _ | .setQueue _ => some p.invalidateUpcoming
  | .skipPrev delay | .skipTo _ delay => p.skipLanded m snap delay
  | .advance _ drop delay k =>
    let p := p.updatePlayer fun s => { s with isPaused := !res.hasNextTrack }
    (p.publishSnapshot snap).advanceTo cfg m res.hasNextTrack res.seed drop delay k

def errSuperseded : LoadErr := { err := { text := "superseded by a newer command" } }

def commit (m : Moment) (p : AppPlayer) : Commit → Option AppPlayer
  | .nothing => some p
  | .call k err => p.call cfg m k err
  | .noStation k => p.settle m k false none
  | .resolved job list snap =>
    ({ p with state.tracks := some list }.publishSnapshot snap).loadCurrentTrackOrSkip m job.paused
      job.drop true job.k
  | .abandonTransfer => p.abandonTransfer m
  | .transferred job list snap played => p.transferred m job list snap played
  | .walkFailed work err => p.listFailed m work err
  | .walked list work res snap =>
    if p.state.tracks = some list then p.listWalked cfg m work res snap
    else p.listFailed m work errSuperseded
  | .loaded job stream streamGen position =>
    ((p.forgetReplacedStreamEvents streamGen).commitLoad m stream job.paused position).settle m
      job.k false none
  | .station context drop k =>
    p.loadContext m context (some fun _ _ => some true) false drop (.autoplayLoaded k)
  | .apiPlay context data =>
    let p := { p with state := p.state.takeOver }.setPaused data.paused
    let p := p.updatePlayer fun s =>
      { s with playOrigin := some { featureIdentifier := "go-librespot" } }
    let loadPaused := data.paused || decide (data.position > 0)
    p.loadContext m context data.skipTo loadPaused true (.apiPlay data.position data.paused)
  | .prefetched stream => some (p.commitPrefetch stream)

/-- A stream that nobody waits for any more must not play on once playback was stopped. -/
def discard (c : Commit) (p : AppPlayer) : AppPlayer :=
  match c with
  | .loaded .. =>
    if ¬ p.loadInFlight ∧ p.primaryStream.isNone then p.withAudio .stop else p
  | _ => p

def stale (job : LoaderJob Work) (p : AppPlayer) : Bool :=
  job.cls ≠ .mutate && job.gen ≠ p.generation job.cls

def applyLoaderResult (m : Moment) (res : LoaderResult) (p : AppPlayer) : Option AppPlayer :=
  if res.job.cls = .load ∧ res.job.gen = p.loadGen then
    ({ p with loadInFlight := false }.commit cfg m res.commit).map drainPendingPlayerEvents
  else if p.stale res.job then some (p.discard res.commit)
  else p.commit cfg m res.commit

end AppPlayer

end Librespot.Daemon
