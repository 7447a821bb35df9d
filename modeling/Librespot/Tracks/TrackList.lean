import Librespot.Base.Run
import Librespot.Tracks.PagedList

/-!
# The track list (`tracks/tracks.go`, `tracks/utils.go`)

`TrackList` is the source's `List`. Every operation gives `none` where the Go
code panics. An operation that may fetch gets the answers of the resolver.
-/

open Base.Exchange

namespace Librespot.Tracks

structure TrackList where
  typ : SpotifyIdType
  shuffled : Bool := false
  shuffleSeed : UInt64 := 0
  shuffleLen : Nat := 0
  shuffleKeep : Int := 0
  tracks : PagedList ContextTrack := PagedList.new
  playingQueue : Bool := false
  queue : List ContextTrack := []
deriving DecidableEq, Repr

/-- Building the comparator already panics on a target with a malformed gid. -/
def contextTrackComparator (typ : SpotifyIdType) (target : ContextTrack) :
    Option (ContextTrack → Option Bool) := do
  let targetUri ←
    if target.uri = "" ∧ target.gid ≠ [] then gidUri typ target.gid else some target.uri
  some fun track =>
    if track.uid ≠ "" ∧ track.uid = target.uid then some true
    else if track.uri ≠ "" ∧ track.uri = targetUri then some true
    else if track.gid ≠ [] then (gidUri typ track.gid).map (· = targetUri)
    else some false

namespace TrackList

def newTrackList (typ : SpotifyIdType) : TrackList := { typ }

inductive SeekStop
  | found
  | gaveUp (pageIdx : Int)
deriving DecidableEq, Repr

/-- A caller's `f` can count its calls, so it also gets the number of the call. -/
def seekBody (f : Int → ContextTrack → Option Bool) (pos : Int)
    (curr : PagedListItem ContextTrack) : Option (Option SeekStop) := do
  if ← f pos curr.item then some (some .found)
  else if curr.pageIdx ≥ seekMaxPages then some (some (.gaveUp curr.pageIdx))
  else some none

def seek (page : Pages ContextTrack) (f : Int → ContextTrack → Option Bool) (tl : TrackList) :
    Option (Option Err × TrackList) := do
  let (stop, iter, tracks) ← walk page (seekBody f) (walkFuel page tl.tracks) Iter.start tl.tracks
  let tl := { tl with tracks }
  match stop with
  | .left .found => some (none, { tl with tracks.pos := iter.pos })
  | .left (.gaveUp pageIdx) =>
    some (some { text := s!"gave up seeking after {pageIdx + 1} pages" }, tl)
  | _ =>
    match iter.err with
    | some err => some (some (err.wrap "failed fetching tracks for seek: "), tl)
    | none => some (some { text := "could not find track" }, tl)

/-- A seek that could not load page 0 asks for it once more: `retry` is what answers then. -/
def trySeek (page retry : Pages ContextTrack) (f : Int → ContextTrack → Option Bool)
    (tl : TrackList) : Option (Option Err × TrackList) := do
  match ← tl.seek page f with
  | (none, tl) => some (none, tl)
  | (some _, tl) =>
    let (err, tracks) := tl.tracks.moveStart retry
    some (err, { tl with tracks })

def dropUntil (f : ContextTrack → Option Bool) : List ContextTrack →
    Option (Option (List ContextTrack))
  | [] => some none
  | queued :: rest => do
    if ← f queued then some (some (queued :: rest)) else dropUntil f rest

def seekQueue (track : ContextTrack) (tl : TrackList) : Option (Bool × TrackList) := do
  let start := if tl.playingQueue then 1 else 0
  let isTarget ←
    if track.uid = "" then contextTrackComparator tl.typ track
    else some fun queued => some (queued.uid = track.uid)
  match ← dropUntil isTarget (tl.queue.drop start) with
  | some queue => some (true, { tl with queue, playingQueue := true })
  | none => some (false, tl)

def trySeekTo (page : Pages ContextTrack) (track : ContextTrack) (tl : TrackList) :
    Option (Option Err × TrackList) := do
  match ← tl.seekQueue track with
  | (true, tl) => some (none, tl)
  | (false, tl) =>
    -- `tl.queue[1:]` of an empty slice panics.
    if tl.playingQueue ∧ tl.queue = [] then none
    else
      let tl :=
        if tl.playingQueue then { tl with queue := tl.queue.tail, playingQueue := false } else tl
      let isTarget ← contextTrackComparator tl.typ track
      match ← tl.seek page fun _ => isTarget with
      | (none, tl) => some (none, tl)
      | (some _, tl) => some (none, { tl with tracks := tl.tracks.moveInjected track })

/-! ## What is published -/

def maxTracksInContext : Nat := 32

def allTracks (max : Int) (tl : TrackList) : Option (List ProvidedTrack) :=
  let items := tl.tracks.resident
  let items :=
    if max > 0 ∧ items.length > max then items.drop (items.length - max.toNat) else items
  items.mapM (contextTrackToProvidedTrack tl.typ)

def prevLoop (tl : TrackList) : Nat → Iter → Option (List ProvidedTrack)
  | 0, _ => some []
  | n + 1, iter => do
    match ← iter.prev with
    | (false, _) => some []
    | (true, iter) => do
      let curr ← iter.get tl.tracks
      let track ← contextTrackToProvidedTrack tl.typ curr.item
      let rest ← prevLoop tl n iter
      some (track :: rest)

def prevTracks (tl : TrackList) : Option (List ProvidedTrack) := do
  let iter ← Iter.here tl.tracks
  let tracks ← tl.prevLoop maxTracksInContext iter
  some tracks.reverse

def nextLoop (typ : SpotifyIdType) (page : Pages ContextTrack) : Nat → Iter →
    PagedList ContextTrack → Option (List ProvidedTrack × PagedList ContextTrack)
  | 0, _, l => some ([], l)
  | n + 1, iter, l =>
    match iter.next page l with
    | (false, _, l) => some ([], l)
    | (true, iter, l) => do
      let curr ← iter.get l
      let track ← contextTrackToProvidedTrack typ curr.item
      let (rest, l) ← nextLoop typ page n iter l
      some (track :: rest, l)

def upcomingQueue (tl : TrackList) : Option (List ContextTrack) :=
  if tl.playingQueue then (if tl.queue = [] then none else some tl.queue.tail) else some tl.queue

def nextTracks (page : Pages ContextTrack) (nextHint : Option (List ContextTrack))
    (tl : TrackList) : Option (List ProvidedTrack × TrackList) := do
  let queued := if tl.playingQueue then tl.queue.tail else tl.queue
  let tracks ← (queued.take maxTracksInContext).mapM (contextTrackToProvidedTrack tl.typ)
  let left := maxTracksInContext - tracks.length
  match nextHint with
  | some hint =>
    -- With no queue `queueLength` is -1 while the queue plays; nothing is skipped then either.
    let upcoming := (hint.drop queued.length).take left
    let rest ← upcoming.mapM fun curr =>
      contextTrackToProvidedTrack tl.typ { curr with metadata := curr.metadata.delete "is_queued" }
    some (tracks ++ rest, tl)
  | none =>
    let iter ← Iter.here tl.tracks
    let (rest, l) ← nextLoop tl.typ page left iter tl.tracks
    some (tracks ++ rest, { tl with tracks := l })

structure ContextIndex where
  page : Int := 0
  track : Int := 0
deriving DecidableEq, Repr

def index (tl : TrackList) : Option ContextIndex :=
  if tl.playingQueue then some {}
  else do
    let curr ← tl.tracks.get
    if curr.pageIdx < 0 then some {} else some { page := curr.pageIdx, track := curr.itemIdx }

def current (tl : TrackList) : Option ContextTrack :=
  if tl.playingQueue then tl.queue.head? else do
    let curr ← tl.tracks.get
    some curr.item

def currentTrack (tl : TrackList) : Option ProvidedTrack := do
  contextTrackToProvidedTrack tl.typ (← tl.current)

structure Snapshot where
  current : ProvidedTrack
  prev : List ProvidedTrack
  next : List ProvidedTrack
  index : ContextIndex
deriving DecidableEq, Repr

def snapshot (page : Pages ContextTrack) (nextHint : Option (List ContextTrack))
    (tl : TrackList) : Option (Snapshot × TrackList) := do
  let current ← tl.currentTrack
  let prev ← tl.prevTracks
  let (next, tl) ← tl.nextTracks page nextHint
  let index ← tl.index
  some ({ current, prev, next, index }, tl)

def goStart (page : Pages ContextTrack) (tl : TrackList) : Bool × TrackList :=
  match tl.tracks.moveStart page with
  | (some _, tracks) => (false, { tl with tracks })
  | (none, tracks) => (true, { tl with tracks })

def peekNext (page : Pages ContextTrack) (tl : TrackList) :
    Option (Option ContextTrack × TrackList) :=
  if tl.playingQueue ∧ tl.queue.length > 1 then some (tl.queue[1]?, tl)
  else if ¬ tl.playingQueue ∧ tl.queue.length > 0 then some (tl.queue[0]?, tl)
  else do
    let iter ← Iter.here tl.tracks
    match iter.next page tl.tracks with
    | (true, iter, tracks) =>
      let curr ← iter.get tracks
      some (some curr.item, { tl with tracks })
    | (false, _, tracks) => some (none, { tl with tracks })

def goNext (page : Pages ContextTrack) (tl : TrackList) : Option (Bool × TrackList) :=
  if tl.playingQueue ∧ tl.queue = [] then none
  else
    let tl := if tl.playingQueue then { tl with queue := tl.queue.tail } else tl
    if tl.queue.length > 0 then some (true, { tl with playingQueue := true })
    else do
      let tl := { tl with playingQueue := false }
      let iter ← Iter.here tl.tracks
      match iter.next page tl.tracks with
      | (true, iter, tracks) => some (true, { tl with tracks := { tracks with pos := iter.pos } })
      | (false, _, tracks) => some (false, { tl with tracks })

def goPrev (tl : TrackList) : Option (Bool × TrackList) := do
  let tl := { tl with playingQueue := false }
  let iter ← Iter.here tl.tracks
  match ← iter.prev with
  | (true, iter) => some (true, { tl with tracks.pos := iter.pos })
  | (false, _) => some (false, tl)

def addToQueue (track : ContextTrack) (tl : TrackList) : TrackList :=
  let track := { track with metadata := track.metadata.set "is_queued" "true" }
  { tl with queue := tl.queue ++ [track] }

def setQueue (next : List ContextTrack) (tl : TrackList) : Option TrackList :=
  if tl.playingQueue ∧ tl.queue = [] then none
  else
    let kept := if tl.playingQueue then tl.queue.take 1 else []
    let queued := next.takeWhile fun track => track.metadata.get "is_queued" = "true"
    some { tl with queue := kept ++ queued }

def setPlayingQueue (val : Bool) (tl : TrackList) : TrackList :=
  { tl with playingQueue := decide (tl.queue.length > 0) && val }

def fetchAllBody (_ : Int) (curr : PagedListItem ContextTrack) : Option (Option Unit) :=
  if curr.pageIdx ≥ seekMaxPages then some (some ()) else some none

def fetchAll (page : Pages ContextTrack) (l : PagedList ContextTrack) :
    Option (PagedList ContextTrack) := do
  let (_, _, l) ← walk page fetchAllBody (walkFuel page l) Iter.start l
  some l

/-- `draw` is what `rand.Uint64()` returns. The sum wraps. -/
def shuffleOn (g : Rand) (page : Pages ContextTrack) (draw : UInt64) (tl : TrackList) :
    Option TrackList := do
  let tracks ← fetchAll page tl.tracks
  let shuffleSeed := draw + 1
  let tracks := tracks.shuffle g (g.newSource shuffleSeed)
  let (shuffleKeep, tracks) ←
    if tracks.pos > 0 then do
      let swapped ← tracks.swap 0 tracks.pos
      some (tracks.pos, swapped)
    else some (-1, tracks)
  some { tl with
    tracks, shuffleSeed, shuffleKeep, shuffleLen := tracks.list.length, shuffled := true }

def shuffleOff (g : Rand) (tl : TrackList) : Option TrackList := do
  let tracks ← if tl.shuffleKeep > 0 then tl.tracks.swap 0 tl.shuffleKeep else some tl.tracks
  some { tl with tracks := tracks.unshuffle g (g.newSource tl.shuffleSeed), shuffled := false }

/-- Clears the list, fetches it again in order and seeks to the current track. A failed seek puts
the list back. -/
def refetch (page : Pages ContextTrack) (tl : TrackList) : Option (Option Err × TrackList) := do
  let currentTrack ← tl.current
  let isCurrent ← contextTrackComparator tl.typ currentTrack
  match ← { tl with tracks := tl.tracks.clear }.seek page fun _ => isCurrent with
  | (some err, found) =>
    some (some (err.wrap "failed seeking to current track: "), { found with tracks := tl.tracks })
  | (none, found) => some (none, { found with shuffled := false })

/-- Whether turning shuffle off replays the draws instead of fetching the pages again. -/
def canReplay (tl : TrackList) : Prop := tl.shuffleSeed ≠ 0 ∧ tl.tracks.list.length = tl.shuffleLen

instance (tl : TrackList) : Decidable tl.canReplay := inferInstanceAs (Decidable (_ ∧ _))

def toggleShuffle (g : Rand) (page : Pages ContextTrack) (draw : UInt64) (shuffle : Bool)
    (tl : TrackList) : Option (Option Err × TrackList) :=
  if shuffle = tl.shuffled then some (none, tl)
  else if shuffle then (tl.shuffleOn g page draw).map fun tl => (none, tl)
  else if tl.canReplay then (tl.shuffleOff g).map fun tl => (none, tl)
  else tl.refetch page

/-- One call of an operation, with the answers that the resolver gives during it. -/
inductive Op
  | seek (page : Pages ContextTrack) (f : Int → ContextTrack → Option Bool)
  | trySeek (page retry : Pages ContextTrack) (f : Int → ContextTrack → Option Bool)
  | trySeekTo (page : Pages ContextTrack) (track : ContextTrack)
  | goStart (page : Pages ContextTrack)
  | goNext (page : Pages ContextTrack)
  | goPrev
  | peekNext (page : Pages ContextTrack)
  | nextTracks (page : Pages ContextTrack) (nextHint : Option (List ContextTrack))
  | addToQueue (track : ContextTrack)
  | setQueue (next : List ContextTrack)
  | setPlayingQueue (val : Bool)
  | toggleShuffle (page : Pages ContextTrack) (draw : UInt64) (shuffle : Bool)

def step (g : Rand) (tl : TrackList) : Op → Option TrackList
  | .seek page f => (tl.seek page f).map (·.2)
  | .trySeek page retry f => (tl.trySeek page retry f).map (·.2)
  | .trySeekTo page track => (tl.trySeekTo page track).map (·.2)
  | .goStart page => some (tl.goStart page).2
  | .goNext page => (tl.goNext page).map (·.2)
  | .goPrev => tl.goPrev.map (·.2)
  | .peekNext page => (tl.peekNext page).map (·.2)
  | .nextTracks page nextHint => (tl.nextTracks page nextHint).map (·.2)
  | .addToQueue track => some (tl.addToQueue track)
  | .setQueue next => tl.setQueue next
  | .setPlayingQueue val => some (tl.setPlayingQueue val)
  | .toggleShuffle page draw shuffle => (tl.toggleShuffle g page draw shuffle).map (·.2)

end TrackList

end Librespot.Tracks
