import Librespot.Daemon.Loader
import Librespot.Daemon.State
import Librespot.Tracks.TrackList

/-!
# The jobs of the player loop, as the lane runs them

A job's `run` closure is a `Work` that carries what the closure captures, and the
`commit` closure of its result is a `Commit`. What the network answers while a job
runs comes in `Answers`. The track lists live in a heap, since a job keeps hold of
the list it was made for after the player loop has moved on to another one.
-/

open Librespot.Tracks

namespace Librespot.Daemon

/-- An error of a job, and whether `isUnplayableMedia` holds of it. -/
structure LoadErr where
  err : Err
  unplayable : Bool := false
deriving DecidableEq, Repr

def LoadErr.wrap (text : String) (e : LoadErr) : LoadErr := { e with err := e.err.wrap text }

def LoadErr.plain (text : String) (err : Err) : LoadErr := { err := err.wrap text }

/-- `player.Stream`. Two streams are the same pointer when their tags are equal. -/
structure Stream where
  tag : Nat
  requestedId : SpotifyId
  /-- The type and the gid of the media, which a relinked track does not share with the request. -/
  mediaId : SpotifyId
  duration : Int
  /-- A stream is made for an id that was parsed, which can be written as a uri again. -/
  named : requestedId.uri.isSome = true := by decide
deriving DecidableEq, Repr

def Stream.is (stream : Stream) (id : SpotifyId) : Bool :=
  if id = stream.requestedId then true
  else if id.typ = "track" ∨ id.typ = "episode" then id = stream.mediaId
  else false

def startPosition (position duration : Int) : Int :=
  if position ≤ 0 ∨ position ≥ duration then 0 else position

structure Playback where
  timestamp : Int := 0
  positionAsOfTimestamp : Int := 0
  isPaused : Bool := false
  currentTrack : Option ContextTrack := none
deriving DecidableEq, Repr

/-- `connectpb.TransferState`, with its session and its queue. -/
structure TransferState where
  options : Option ContextPlayerOptions := none
  playOrigin : Option PlayOrigin := none
  playback : Playback := {}
  context : Context := {}
  currentUid : String := ""
  queue : List ContextTrack := []
  isPlayingQueue : Bool := false
deriving DecidableEq, Repr

/-- A `skipToFunc`. It can count its calls, so it gets the number of the call. -/
abbrev SkipTo := Int → ContextTrack → Option Bool

/-- The callbacks that the controls are given, `func(error)` and `func(bool, error)` alike. -/
inductive Then
  | log
  /-- What the API's play does once its context has loaded. -/
  | apiPlay (position : Int) (paused : Bool)
  /-- `startAutoplay`, once the station has loaded. -/
  | autoplayLoaded (k : Then)
  /-- `loadCurrentTrackOrSkip`, once the track has loaded. -/
  | orSkip (drop : Bool) (k : Then)
  /-- `loadCurrentTrackOrSkip`, once it has advanced past the track. -/
  | orSkipped (k : Then)
  /-- `advanceTo`, once the track has loaded. -/
  | advanced (hasNextTrack drop : Bool) (k : Then)
  | playerEnd
  | skipNext

structure ResolveJob where
  context : Context
  skipTo : Option SkipTo
  shuffle : Bool
  queued : List ContextTrack
  paused : Bool
  drop : Bool
  k : Then

structure TransferJob where
  state : TransferState
  sentBy : String
  paused : Bool
  continuation : Bool
  /-- The primary stream when the transfer came. -/
  stream : Option Stream

structure LoadJob where
  spotId : SpotifyId
  position : Int
  fromStart : Bool
  paused : Bool
  drop : Bool
  resume : Bool
  prefetched : Option Stream
  k : Then

structure ApiPlay where
  uri : String
  position : Int := 0
  paused : Bool := false
  skipTo : Option SkipTo := none

/-- The walk and the commit of each `listJob`. -/
inductive ListWork
  | peekNext
  | shuffle (val : Bool)
  | addToQueue (track : ContextTrack)
  | setQueue (next : Option (List ContextTrack))
  | skipPrev (delay : Int)
  | skipTo (track : ContextTrack) (delay : Int)
  | advance (repeatingContext drop : Bool) (delay : Int) (k : Then)

inductive Work
  | resolve (job : ResolveJob)
  | transfer (job : TransferJob)
  | list (id : ListId) (work : ListWork)
  | load (job : LoadJob)
  | station (contextUri : String) (seed : List String) (drop : Bool) (k : Then)
  | apiPlay (data : ApiPlay)
  | prefetch (id : SpotifyId)

structure Walked where
  next : Option ContextTrack := none
  hasNextTrack : Bool := false
  seed : List String := []

inductive Commit
  | nothing
  | call (k : Then) (err : LoadErr)
  | noStation (k : Then)
  | resolved (job : ResolveJob) (list : ListId) (snap : TrackList.Snapshot)
  | abandonTransfer
  /-- The context is there if another one than the transferred one plays. -/
  | transferred (job : TransferJob) (list : ListId) (snap : TrackList.Snapshot)
      (played : Option Context)
  | walkFailed (work : ListWork) (err : LoadErr)
  | walked (list : ListId) (work : ListWork) (res : Walked) (snap : TrackList.Snapshot)
  | loaded (job : LoadJob) (stream : Stream) (streamGen : Nat) (position : Int)
  | station (context : Context) (drop : Bool) (k : Then)
  | apiPlay (context : Context) (data : ApiPlay)
  | prefetched (stream : Stream)

section

variable {P : LoadJob → Prop} [DecidablePred P] {Q : Prop} [Decidable Q]
  {R : ListId → ListWork → Walked → TrackList.Snapshot → Prop}
  [∀ id work res snap, Decidable (R id work res snap)]

instance (work : Work) : Decidable (∀ load, work = .load load → P load) :=
  match work with
  | .load load => decidable_of_iff (P load) (by simp)
  | .resolve _ | .transfer _ | .list .. | .station .. | .apiPlay _ | .prefetch _ => .isTrue (by simp)

instance (work : Work) : Decidable (∀ job, work = .resolve job → Q) :=
  match work with
  | .resolve _ => decidable_of_iff Q (by simp)
  | .transfer _ | .list .. | .load _ | .station .. | .apiPlay _ | .prefetch _ => .isTrue (by simp)

instance (work : ListWork) :
    Decidable (∀ repeating drop delay k, work = .advance repeating drop delay k → Q) :=
  match work with
  | .advance .. => decidable_of_iff Q ⟨fun h _ _ _ _ _ => h, fun h => h _ _ _ _ rfl⟩
  | .peekNext | .shuffle _ | .addToQueue _ | .setQueue _ | .skipPrev _ | .skipTo .. =>
    .isTrue (by simp)

instance (c : Commit) :
    Decidable (∀ id work res snap, c = .walked id work res snap → R id work res snap) :=
  match c with
  | .walked id work res snap => decidable_of_iff (R id work res snap)
      ⟨fun h _ _ _ _ heq => by cases heq; exact h, fun h => h _ _ _ _ rfl⟩
  | .nothing | .call .. | .noStation _ | .resolved .. | .abandonTransfer | .transferred ..
  | .walkFailed .. | .loaded .. | .station .. | .apiPlay .. | .prefetched _ => .isTrue (by simp)

instance decidableOk {ε α : Type} (e : Except ε α) : Decidable (∃ a, e = .ok a) :=
  match e with
  | .ok a => .isTrue ⟨a, rfl⟩
  | .error _ => .isFalse nofun

end

structure LoaderResult where
  job : LoaderJob Work
  commit : Commit

/-- What a job is answered while it runs. The `n`-th walk of a list gets its own pages, since a
page that could not be fetched is asked for again. -/
structure Answers where
  newList : Nat → Except LoadErr SpotifyIdType
  accessDenied : Bool := false
  pages : Nat → Pages ContextTrack
  draw : Nat → UInt64
  context : Except LoadErr Context
  resumePosition : Option Int := none
  stream : Except LoadErr Stream
  streamGen : Nat := 0
  /-- The stream was set, but the output did not take it. -/
  setFails : Bool := false
  /-- The output was discarded after an optimistic reply. -/
  outputLost : Bool := false

def singleTrackContext (track : Option ContextTrack) : Option (Option Context) :=
  match track with
  | none => some none
  | some track =>
    if track.uri ≠ "" then some (some { uri := track.uri })
    else if track.gid.length = 16 then (gidUri "track" track.gid).map fun uri => some { uri }
    else some none

def emptyContext (ctx : Context) : Bool :=
  ctx.uri = "" && ctx.url = "" && ctx.pages.all fun page =>
    page.tracks = [] && page.pageUrl = "" && page.nextPageUrl = ""

def playingQueuedTrack (state : TransferState) : Option Bool :=
  match state.isPlayingQueue, state.queue, state.playback.currentTrack with
  | true, head :: _, some current =>
    if head.uid ≠ "" ∧ current.uid ≠ "" then some (head.uid = current.uid)
    else (contextTrackComparator "track" current).bind fun isCurrent => isCurrent head
  | _, _, _ => some false

def parseUint (digits : List Char) : Option Nat :=
  let n := digits.foldl (fun n c => 10 * n + (c.toNat - '0'.toNat)) 0
  if digits ≠ [] ∧ digits.all Char.isDigit ∧ n < 2 ^ 64 then some n else none

def highestQueueID (queued : List ContextTrack) : Nat :=
  queued.foldl (fun highest track =>
    match track.uid.toList with
    | 'q' :: digits => max highest ((parseUint digits).getD 0)
    | _ => highest) 0

/-! ## What the jobs do -/

def orFail {α : Type} (text : String) (res : Option (Option Err × TrackList))
    (go : TrackList → Option (Except LoadErr α)) : Option (Except LoadErr α) :=
  match res with
  | none => none
  | some (some err, _) => some (.error (.plain text err))
  | some (none, tl) => go tl

variable (g : Rand) (a : Answers)

def resolveContext (job : ResolveJob) : Option (Except LoadErr (TrackList × TrackList.Snapshot)) :=
  match a.newList 0 with
  | .error err => some (.error (err.wrap "failed creating track list: "))
  | .ok typ =>
    let list := TrackList.newTrackList typ
    let shuffled :=
      if job.skipTo.isNone then list.toggleShuffle g (a.pages 0) (a.draw 0) job.shuffle
      else some (none, list)
    orFail "failed shuffling context: " shuffled fun list =>
    orFail "failed seeking to track: "
      (list.trySeek (a.pages 1) (a.pages 2) (job.skipTo.getD fun _ _ => some true)) fun list =>
    orFail "failed shuffling context: "
      (list.toggleShuffle g (a.pages 3) (a.draw 1) job.shuffle) fun list => do
    let list := job.queued.foldl (fun list track => list.addToQueue track) list
    let (snap, list) ← list.snapshot (a.pages 4) none
    some (.ok (list, snap))

/-- The list on the track before the one that comes after the queue, if a queued track plays. The
list is there for the other branches to go on with. -/
def seekBehindQueue (state : TransferState) (refused : Bool) (list : TrackList) :
    Option (Bool × TrackList) := do
  if refused ∨ state.currentUid = "" then some (false, list)
  else if ← playingQueuedTrack state then
    let isNext ← contextTrackComparator "track" { uid := state.currentUid }
    match ← list.seek (a.pages 0) fun _ => isNext with
    | (some _, list) => some (false, list)
    | (none, list) => list.goPrev
  else some (false, list)

def seekTransferred (state : TransferState) (refused : Bool) (list : TrackList) :
    Option (Option Err × TrackList) := do
  match ← seekBehindQueue a state refused list with
  | (true, list) => some (none, list)
  | (false, list) =>
    match state.playback.currentTrack, ← singleTrackContext state.playback.currentTrack with
    | some current, some _ =>
      let (err, list) ← list.trySeekTo (a.pages 1) current
      some (err.map (Err.wrap "failed seeking to track: "), list)
    | _, _ =>
      match list.goStart (a.pages 1) with
      | (true, list) => some (none, list)
      | (false, list) =>
        let text := "transferred context " ++ state.context.uri ++ " has no track to start from"
        some (some { text }, list)

def runTransferList (state : TransferState) (refused : Bool) (typ : SpotifyIdType) :
    Option (Except LoadErr (TrackList × TrackList.Snapshot)) :=
  let shuffle := (state.options.map ContextPlayerOptions.shufflingContext).getD false
  orFail "" (seekTransferred a state refused (.newTrackList typ)) fun list =>
  orFail "failed shuffling context: "
    (list.toggleShuffle g (a.pages 2) (a.draw 0) shuffle) fun list => do
  let list := state.queue.foldl (fun list track => list.addToQueue track) list
  let list := list.setPlayingQueue state.isPlayingQueue
  let (snap, list) ← list.snapshot (a.pages 3) none
  some (.ok (list, snap))

def runTransfer (state : TransferState) :
    Option (Except LoadErr (TrackList × TrackList.Snapshot) × Option Context) := do
  match a.newList 0 with
  | .ok typ => some (← runTransferList g a state false typ, none)
  | .error err =>
    if a.accessDenied then
      match ← singleTrackContext state.playback.currentTrack with
      | none =>
        let text := "failed creating track list, and no track to fall back on: "
        some (.error (err.wrap text), none)
      | some played =>
        match a.newList 1 with
        | .error err =>
          some (.error (err.wrap "failed creating track list for the transferred track: "), none)
        | .ok typ => some (← runTransferList g a state true typ, some played)
    else some (.error (err.wrap "failed creating track list: "), none)

def maxAutoplaySeedTracks : Int := 50

namespace ListWork

def nextHint : ListWork → Option (List ContextTrack)
  | .setQueue next => next
  | _ => none

def walk (list : TrackList) : ListWork → Option (Option Err × Walked × TrackList)
  | .peekNext => do
    let (next, list) ← list.peekNext (a.pages 0)
    some (none, { next }, list)
  | .shuffle val => do
    let (err, list) ← list.toggleShuffle g (a.pages 0) (a.draw 0) val
    some (err, {}, list)
  | .addToQueue track => some (none, {}, list.addToQueue track)
  | .setQueue next => do some (none, {}, ← list.setQueue (next.getD []))
  | .skipPrev _ => do
    let (_, list) ← list.goPrev
    some (none, {}, list)
  | .skipTo track _ => do
    let (err, list) ← list.trySeekTo (a.pages 0) track
    some (err, {}, list)
  | .advance repeatingContext _ _ _ => do
    let (hasNextTrack, list) ← list.goNext (a.pages 0)
    if hasNextTrack then some (none, { hasNextTrack }, list)
    else
      -- The end of the context: back to its first track, which starts only if it repeats.
      let (started, list) := list.goStart (a.pages 1)
      if started ∧ repeatingContext then some (none, { hasNextTrack := true }, list)
      else
        let seed ← list.allTracks maxAutoplaySeedTracks
        some (none, { seed := seed.map ProvidedTrack.uri }, list)

end ListWork

def lookupResumePosition (id : SpotifyId) : Option Int :=
  if id.typ = "episode" then a.resumePosition.filter (0 < ·) else none

def LoadJob.start (job : LoadJob) : Int :=
  if job.resume then (lookupResumePosition a job.spotId).getD job.position else job.position

def fetchTrack (job : LoadJob) : Except LoadErr Stream :=
  a.stream.map fun stream => job.prefetched.getD stream

def runWork (lists : List TrackList) : Work → Option (Commit × List TrackList)
  | .resolve job => do
    match ← resolveContext g a job with
    | .error err => some (.call job.k err, lists)
    | .ok (list, snap) => some (.resolved job lists.length snap, lists ++ [list])
  | .transfer job => do
    match ← runTransfer g a job.state with
    | (.error _, _) => some (if job.continuation then .nothing else .abandonTransfer, lists)
    | (.ok (list, snap), played) =>
      some (.transferred job lists.length snap played, lists ++ [list])
  | .list id work => do
    let list ← lists[id]?
    match ← work.walk g a list with
    | (some err, _, list) => some (.walkFailed work (.plain "" err), lists.set id list)
    | (none, res, list) => do
      let (snap, list) ← list.snapshot (a.pages 2) work.nextHint
      some (.walked id work res snap, lists.set id list)
  | .load job =>
    match fetchTrack a job with
    | .error err => some (.call job.k err, lists)
    | .ok stream =>
      let position := startPosition (job.start a) stream.duration
      some (.loaded job stream a.streamGen position, lists)
  | .station _ _ drop k =>
    match a.context with
    | .error _ => some (.noStation k, lists)
    | .ok ctx => some (.station ctx drop k, lists)
  | .apiPlay data =>
    match a.context with
    | .error _ => some (.nothing, lists)
    | .ok ctx => some (.apiPlay ctx data, lists)
  | .prefetch _ =>
    match a.stream with
    | .error _ => some (.nothing, lists)
    | .ok stream => some (.prefetched stream, lists)

end Librespot.Daemon
